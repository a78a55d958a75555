import Mathlib.Data.Int.ConditionallyCompleteOrder
import Mathlib.Order.ConditionallyCompleteLattice.Basic
import Orkworksd.Taskmaster.CoordinatorDigests
import Orkworksd.Taskmaster.CoordinatorStore

/- What the reader of coordinator records finds in what the writers left.

   `Good` is what holds of a record on the disk and `Sound` of the whole disk; both are kept
   when time goes on. A program is `Quiet` where it leaves the revisions alone: it may remove
   and write temporary files and make directories. From a sound disk every read succeeds
   unless a file operation fails, and it finds the record that was written. -/
namespace Orkworksd.Coordinator
open Lib Lib.Prog List

variable {history : List PlanApproval} {w' w : World}

/-! ## Records are read back -/

theorem status_read (s : PlanStatus) : PlanStatus.read (.string s.name) = some s := by
  cases s <;> rfl

variable (a : PlanApproval)

theorem approval_names : Json.Names approvalNames a.members where
  keys := rfl
  distinct := by decide

theorem approval_read : PlanApproval.read a.value = some a := by
  have h := approval_names a
  rw [PlanApproval.read, PlanApproval.value, Json.fields_names h]
  simp only [Json.field_at h 0 rfl, Json.field_at h 1 rfl, Json.field_at h 2 rfl,
    Json.field_at h 3 rfl, Json.field_at h 4 rfl, Json.field_at h 5 rfl, Json.field_at h 6 rfl,
    Json.field_at h 7 rfl, Json.field_at h 8 rfl, Json.field_at h 9 rfl, Json.field_at h 10 rfl,
    Json.field_at h 11 rfl, Json.optional_at h 12 rfl, Json.text, nullable_text, u32_ofNat,
    u64_ofNat]
  rfl

theorem record_names' (r : StoredPlan) : Json.Names recordNames r.members where
  keys := rfl
  distinct := by decide

variable {env : Env}

theorem record_read {r : StoredPlan} {input : PlanProposalInput}
    (hplan : fromProposal env input = .ok r.plan) : DiskRecord.read env r.value =
      some ⟨r.plan, r.status, r.approval, some r.approvalHistory⟩ := by
  have h := record_names' r
  have happroval : Json.nullable PlanApproval.read (Json.ofOption PlanApproval.value r.approval) =
      some r.approval :=
    Json.nullable_ofOption approval_read (fun _ heq => nomatch heq) r.approval
  have hhistory : readHistory r.members = some (some r.approvalHistory) := by
    rw [readHistory, Json.get_at h 3 rfl]
    exact congrArg (Option.map some) (Json.list_map approval_read r.approvalHistory)
  rw [DiskRecord.read, StoredPlan.value, Json.fields_names h]
  simp only [Json.field_at h 0 rfl, Json.field_at h 1 rfl, Json.optional_at h 2 rfl,
    accepted_read hplan, status_read, happroval, hhistory]
  rfl

/-! ## The invariant of the disk -/

/-- The history of a record at a time: every approval was valid when it was given, no id is
used twice and each is later than the one before. -/
structure HistoryOk (env : Env) (plan : PlanRevision) (time : Int) (history : List PlanApproval) :
    Prop where
  valid : ∀ a ∈ history, ∃ at', env.parseTime a.approvedAt = some at' ∧ at' ≤ time ∧
    a.validateAgainstAt env plan at' = .ok ()
  ids : (history.map PlanApproval.approvalId).Nodup
  times : history.Pairwise (fun a b => ∀ s t, env.parseTime a.approvedAt = some s →
    env.parseTime b.approvedAt = some t → s < t)

/-- The statuses that need an approval to be stored. -/
def approvedStatuses : List PlanStatus := [.active, .readyForUserReview, .completed, .failed]

structure Good (host : Host) (key : Key) (time : Int) (r : StoredPlan) : Prop where
  accepted : ∃ input, fromProposal host.env input = .ok r.plan
  safe : safeId key.1 = true
  planId : r.plan.planId = key.1
  revision : r.plan.revision = key.2
  positive : key.2 ≠ 0
  instanceId : r.plan.instanceId = host.instanceId
  workspaceId : r.plan.workspaceId = host.workspaceId
  size : r.bytes.length ≤ maxRecordBytes
  stored : r.status ≠ .draft
  unapproved : r.approval = none → r.approvalHistory = [] ∧ r.status ∉ approvedStatuses
  approved : ∀ a, r.approval = some a → r.status ≠ .proposed ∧
    r.approvalHistory.getLast? = some a ∧ HistoryOk host.env r.plan time r.approvalHistory

theorem HistoryOk.later {plan : PlanRevision} {s t : Int} (h : HistoryOk env plan s history)
    (hst : s ≤ t) : HistoryOk env plan t history where
  valid := by
    intro a ha
    obtain ⟨at', htime, hle, hvalid⟩ := h.valid a ha
    exact ⟨at', htime, Int.le_trans hle hst, hvalid⟩
  ids := h.ids
  times := h.times

theorem Good.later {host : Host} {key : Key} {s t : Int} {r : StoredPlan} (h : Good host key s r)
    (hst : s ≤ t) : Good host key t r :=
  { h with
    approved := fun a ha =>
      ⟨(h.approved a ha).1, (h.approved a ha).2.1, (h.approved a ha).2.2.later hst⟩ }

/-- This revision is on the disk with this record. -/
def Stored (w : World) (key : Key) (r : StoredPlan) : Prop := w.disk.files.get key = some r.bytes

structure Sound (host : Host) (w : World) : Prop where
  distinct : w.disk.files.keys.Nodup
  dirs : ∀ dir ∈ w.disk.dirs, safeId dir = true
  files : ∀ {key bytes}, w.disk.files.get key = some bytes → key.1 ∈ w.disk.dirs ∧
    ∃ r : StoredPlan, bytes = r.bytes ∧ Good host key (host.clock w.ticks) r

/-- The revisions are untouched and the clock went on. -/
structure Later (w w' : World) : Prop where
  files : w'.disk.files = w.disk.files
  dirs : ∀ dir ∈ w.disk.dirs, dir ∈ w'.disk.dirs
  safe : (∀ dir ∈ w.disk.dirs, safeId dir = true) → ∀ dir ∈ w'.disk.dirs, safeId dir = true
  ticks : w.ticks ≤ w'.ticks

theorem Later.refl (w : World) : Later w w :=
  ⟨rfl, fun _ h => h, fun h => h, Nat.le_refl _⟩

theorem Later.trans {w'' : World} (h : Later w w') (h' : Later w' w'') : Later w w'' where
  files := h'.files.trans h.files
  dirs := fun dir hd => h'.dirs dir (h.dirs dir hd)
  safe := fun hs => h'.safe (h.safe hs)
  ticks := Nat.le_trans h.ticks h'.ticks

theorem Later.of_same (hfiles : w'.disk.files = w.disk.files) (hdirs : w'.disk.dirs = w.disk.dirs)
    (hticks : w.ticks ≤ w'.ticks) : Later w w' where
  files := hfiles
  dirs := fun _ hd => hdirs ▸ hd
  safe := fun hs dir hd => hs dir (hdirs ▸ hd)
  ticks := hticks

theorem Sound.later {host : Host} (hclock : Monotone host.clock) (h : Sound host w)
    (hl : Later w w') : Sound host w' where
  distinct := hl.files ▸ h.distinct
  dirs := hl.safe h.dirs
  files := by
    intro key bytes hget
    rw [hl.files] at hget
    obtain ⟨hdir, r, hbytes, hgood⟩ := h.files hget
    exact ⟨hl.dirs _ hdir, r, hbytes, hgood.later (hclock hl.ticks)⟩

/-! ## Quiet programs -/

/-- The program leaves the revisions alone; what it returns satisfies `post`, and its errors
`err`. -/
def Quiet {α : Type} (p : Op α) (w : World) (post : α → Prop) (err : StoreError → Prop) : Prop :=
  Meets p w (fun a w' => post a ∧ Later w w') (fun e w' => err e ∧ Later w w') (Later w)

section quiet
variable {host : Host} {α β : Type} {w : World} {post : α → Prop} {err : StoreError → Prop}

theorem Quiet.pure {a : α} (h : post a) : Quiet (Prog.pure a : Op α) w post err :=
  Meets.pure' ⟨h, .refl w⟩

variable {e : StoreError}

theorem Quiet.fail (h : err e) : Quiet (Prog.fail e : Op α) w post err :=
  Meets.fail' ⟨h, .refl w⟩

theorem Quiet.look {f : World → α} (h : post (f w)) : Quiet (Prog.look f) w post err :=
  Meets.look' ⟨h, .refl w⟩

variable {p : Op α} {f : α → Op β} {post' : β → Prop}

theorem Quiet.bind (hp : Quiet p w post err)
    (hf : ∀ a w', post a → Later w w' → Quiet (f a) w' post' err) :
    Quiet (p >>= f) w post' err := by
  refine Meets.seq (hp.mono (fun _ _ h => h) (fun _ _ h => h) (fun _ h => h)) ?_
  intro a w' ha
  refine (hf a w' ha.1 ha.2).mono ?_ ?_ ?_
  · exact fun b t hb => ⟨hb.1, ha.2.trans hb.2⟩
  · exact fun e t he => ⟨he.1, ha.2.trans he.2⟩
  · exact fun t ht => ha.2.trans ht

theorem Quiet.seq (mid : α → Prop) (hp : Quiet p w mid err)
    (hf : ∀ a w', mid a → Later w w' → Quiet (f a) w' post' err) : Quiet (p >>= f) w post' err :=
  hp.bind hf

theorem Quiet.mono {p : Op α} {post' : α → Prop} {err' : StoreError → Prop}
    (h : Quiet p w post err) (hpost : ∀ a, post a → post' a) (herr : ∀ e, err e → err' e) :
    Quiet p w post' err' :=
  Meets.mono h (fun a _ ha => ⟨hpost a ha.1, ha.2⟩) (fun e _ he => ⟨herr e he.1, he.2⟩)
    (fun _ ht => ht)

/-- The error of a file operation before the rename. -/
def Fault (host : Host) (e : StoreError) : Prop :=
  (∃ n, host.faults n = true) ∧ ∃ step, e = .io step ∧ step ≠ .published

theorem Quiet.now {post : Int → Prop} (h : ∀ n, w.ticks ≤ n → post (host.clock n)) :
    Quiet (Coordinator.now host) w post err where
  states := by simp [Coordinator.now]
  ok := by
    intro time ht
    cases ht
    exact ⟨h _ (Nat.le_refl _), .of_same rfl rfl (Nat.le_succ _)⟩
  error := by
    intro e he
    cases he

theorem Quiet.touch {step : FileStep} {post : Unit → Prop} (hstep : step ≠ .published)
    (h : post ()) : Quiet (touch host step) w post (Fault host) where
  states := by simp [Coordinator.touch]
  ok := fun _ _ => ⟨h, .of_same rfl rfl (Nat.le_refl _)⟩
  error := by
    intro e he
    refine ⟨?_, .of_same rfl rfl (Nat.le_refl _)⟩
    simp only [Coordinator.touch] at he
    split at he
    · rename_i hfault
      cases he
      exact ⟨⟨_, hfault⟩, step, rfl, hstep⟩
    · cases he

theorem Quiet.changeDisk {f : Disk → Disk} {post : Unit → Prop}
    (hl : Later w { w with disk := f w.disk }) (h : post ()) :
    Quiet (Coordinator.changeDisk f) w post err :=
  Meets.step' hl ⟨h, hl⟩

variable {allowed : Bool}

theorem Quiet.require {post : Unit → Prop} (hok : allowed = true → post ())
    (herr : allowed = false → err e) : Quiet (Coordinator.require allowed e) w post err := by
  cases allowed with
  | true => exact Quiet.pure (hok rfl)
  | false => exact Quiet.fail (herr rfl)

theorem Quiet.passes (h : allowed = true) :
    Quiet (Coordinator.require allowed e) w (fun _ => True) err :=
  Quiet.require (fun _ => trivial) (fun hno => by rw [h] at hno; cases hno)

theorem Quiet.forEach {body : β → Op Unit}
    (hbody : ∀ b w', Later w w' → Quiet (body b) w' (fun _ => True) err) (bs : List β) :
    Quiet (Prog.forEach body bs) w (fun _ => True) err := by
  induction bs generalizing w with
  | nil => exact Quiet.pure trivial
  | cons b bs ih =>
    refine (hbody b w (.refl w)).bind fun _ w' _ hl => ?_
    exact ih fun b' w'' hl' => hbody b' w'' (hl.trans hl')

end quiet

/-! ## Reading a sound disk -/

section reading
variable {host : Host} {w : World}

variable {time : Int} {plan : PlanRevision}

variable {at' : Int}

theorem historical_ok {a : PlanApproval} (htime : host.env.parseTime a.approvedAt = some at')
    (hle : at' ≤ time) (hvalid : a.validateAgainstAt host.env plan at' = .ok ()) :
    a.validateHistoricalAgainst host.env plan time = .ok () := by
  unfold PlanApproval.validateHistoricalAgainst timeOf
  rw [htime]
  refine bind_eq_ok.mpr ⟨at', rfl, seq_eq_ok.mpr ⟨?_, hvalid⟩⟩
  exact refuseIf_ok.mpr (decide_eq_false (Int.not_lt.mpr hle))

theorem history_step {entry : PlanApproval} {done : List PlanApproval}
    (hok : HistoryOk host.env plan time (done.reverse ++ entry :: history))
    (htime : host.env.parseTime entry.approvedAt = some at') :
    (!((done.map PlanApproval.approvalId).contains entry.approvalId ||
      (done.head?.bind (fun a => host.env.parseTime a.approvedAt)).any
        (fun previous => decide (at' ≤ previous)))) = true := by
  have hid : entry.approvalId ∉ done.map PlanApproval.approvalId := by
    have hids := hok.ids
    rw [map_append, map_reverse, map_cons] at hids
    intro hmem
    refine (nodup_append.mp hids).2.2 _ (mem_reverse.mpr hmem) _ mem_cons_self rfl
  have hlater : (done.head?.bind (fun a => host.env.parseTime a.approvedAt)).any
      (fun previous => decide (at' ≤ previous)) = false := by
    cases done with
    | nil => rfl
    | cons last done =>
      cases hlast : host.env.parseTime last.approvedAt with
      | none => simp [hlast]
      | some s =>
        have hpair := (pairwise_append.mp hok.times).2.2 last (by simp) entry
          mem_cons_self s at' hlast htime
        simpa [hlast] using hpair
  simp only [hlater, Bool.or_false, Bool.not_eq_true', contains_eq_mem, decide_eq_false_iff_not]
  exact hid

theorem checkHistory_quiet (hclock : Monotone host.clock) (hw : time ≤ host.clock w.ticks)
    (history : List PlanApproval) (done : List PlanApproval) (previous : Option Int)
    (hok : HistoryOk host.env plan time (done.reverse ++ history))
    (hprevious : previous = done.head?.bind (fun a => host.env.parseTime a.approvedAt)) :
    Quiet (checkHistory host plan history (done.map PlanApproval.approvalId) previous) w
      (fun _ => True) (Fault host) := by
  induction history generalizing w done previous with
  | nil => exact Quiet.pure trivial
  | cons entry history ih =>
    obtain ⟨at', htime, hle, hvalid⟩ := hok.valid entry (by simp)
    refine Quiet.seq (fun t => at' ≤ t) (Quiet.now fun n hn => ?_) fun t w' ht hl => ?_
    · exact Int.le_trans hle (Int.le_trans hw (hclock hn))
    · refine Quiet.seq (fun _ => True) ?_ fun _ w'' _ hl' => ?_
      · rw [historical_ok htime ht hvalid]
        exact Quiet.pure trivial
      · simp only [htime]
        refine Quiet.bind (Quiet.passes ?_) fun _ w₃ _ hl₃ => ?_
        · rw [hprevious]
          exact history_step hok htime
        · refine ih (Int.le_trans hw (hclock ((hl.trans hl').trans hl₃).ticks)) (entry :: done)
            (some at') ?_ ?_
          · simpa using hok
          · simp [htime]

variable {key : Key} {r : StoredPlan}

theorem checkApprovals_quiet (hclock : Monotone host.clock) (hgood : Good host key time r)
    (hw : time ≤ host.clock w.ticks) :
    Quiet (checkApprovals host ⟨r.plan, r.status, r.approval, some r.approvalHistory⟩) w
      (fun r' => r' = r) (Fault host) := by
  have hstate : (!(r.status = .draft || (r.status = .proposed && r.approval.isSome))) = true := by
    cases happroval : r.approval with
    | none => simp [hgood.stored]
    | some a => simp [hgood.stored, (hgood.approved a happroval).1]
  refine Quiet.bind (Quiet.passes hstate) fun _ w' _ hl => ?_
  dsimp only [Option.getD_some]
  cases happroval : r.approval with
  | some a =>
    obtain ⟨-, hlast, hhistory⟩ := hgood.approved a happroval
    refine Quiet.bind (Quiet.passes (decide_eq_true hlast)) fun _ w'' _ hl' => ?_
    have hle : time ≤ host.clock w''.ticks := Int.le_trans hw (hclock (hl.trans hl').ticks)
    refine (checkHistory_quiet hclock hle r.approvalHistory [] none hhistory rfl).bind ?_
    intro _ _ _ _
    exact Quiet.pure (by rw [← happroval])
  | none =>
    obtain ⟨hempty, hstatus⟩ := hgood.unapproved happroval
    refine Quiet.bind (Quiet.passes ?_) fun _ w'' _ _ => ?_
    · simpa [approvedStatuses] using hstatus
    · refine Quiet.bind (Quiet.passes ?_) fun _ _ _ _ => Quiet.pure (by rw [← happroval])
      rw [hempty]
      rfl

theorem readRecord_quiet (hclock : Monotone host.clock)
    (hjson : ∀ r : StoredPlan, host.env.parseJson r.bytes = some r.value)
    (hgood : Good host key time r) (hw : time ≤ host.clock w.ticks) :
    Quiet (readRecord host r.bytes key) w (fun r' => r' = r) (Fault host) := by
  obtain ⟨input, hplan⟩ := hgood.accepted
  refine Quiet.seq (fun _ => True) (Quiet.touch (by decide) trivial) fun _ w₁ _ hl₁ => ?_
  refine Quiet.bind (Quiet.passes (decide_eq_true hgood.size)) fun _ w₂ _ hl₂ => ?_
  rw [hjson r, Option.bind_some, record_read hplan]
  refine Quiet.bind (Quiet.passes ?_) fun _ w₃ _ hl₃ => ?_
  · rw [hgood.planId]
    exact hgood.safe
  · refine Quiet.bind (Quiet.passes ?_) fun _ w₄ _ hl₄ => ?_
    · simp [hgood.planId, hgood.revision]
    · have hlater := ((hl₁.trans hl₂).trans hl₃).trans hl₄
      exact checkApprovals_quiet hclock hgood (Int.le_trans hw (hclock hlater.ticks))

theorem checkIdentity_quiet (hgood : Good host key time r) :
    Quiet (checkIdentity host r.plan) w (fun _ => True) (Fault host) :=
  Quiet.passes (by simp [hgood.instanceId, hgood.workspaceId])

section sound
variable (hclock : Monotone host.clock)
  (hjson : ∀ r : StoredPlan, host.env.parseJson r.bytes = some r.value)
include hclock hjson

variable {time : Int}

theorem readEntry_quiet {entry : Key × List UInt8} (hbytes : entry.2 = r.bytes)
    (hgood : Good host entry.1 time r) (hw : time ≤ host.clock w.ticks) :
    Quiet (readEntry host entry) w (fun r' => r' = r) (Fault host) := by
  refine Quiet.bind (Quiet.passes (decide_eq_true hgood.positive)) fun _ w₁ _ hl₁ => ?_
  rw [hbytes]
  refine (readRecord_quiet hclock hjson hgood (Int.le_trans hw (hclock hl₁.ticks))).bind ?_
  intro r' w₂ hr' _
  subst hr'
  exact (checkIdentity_quiet hgood).bind fun _ _ _ _ => Quiet.pure rfl

/-- The records that stand for these files, in their order. -/
def Stand (host : Host) (time : Int) (entries : List (Key × List UInt8))
    (records : List StoredPlan) : Prop :=
  List.Forall₂ (fun entry r => entry.2 = r.bytes ∧ Good host entry.1 time r) entries records

theorem readEntries_quiet (entries : List (Key × List UInt8))
    (hgood : ∀ entry ∈ entries, ∃ r : StoredPlan, entry.2 = r.bytes ∧ Good host entry.1 time r)
    (hw : time ≤ host.clock w.ticks) :
    Quiet (readEntries host entries) w (Stand host time entries) (Fault host) := by
  induction entries generalizing w with
  | nil => exact Quiet.pure .nil
  | cons entry entries ih =>
    obtain ⟨r, hbytes, hr⟩ := hgood entry mem_cons_self
    refine (readEntry_quiet hclock hjson hbytes hr hw).bind fun r' w₁ hr' hl₁ => ?_
    subst hr'
    refine (ih (fun e he => hgood e (mem_cons_of_mem _ he))
      (Int.le_trans hw (hclock hl₁.ticks))).bind fun records w₂ hrecords _ => ?_
    exact Quiet.pure (.cons ⟨hbytes, hr⟩ hrecords)

theorem readDirs_quiet {files : OrderedMap Key (List UInt8)} (dirs : List String)
    (hsafe : ∀ dir ∈ dirs, safeId dir = true) (hfiles : w.disk.files = files)
    (hgood : ∀ entry ∈ files, ∃ r : StoredPlan, entry.2 = r.bytes ∧ Good host entry.1 time r)
    (hw : time ≤ host.clock w.ticks) : Quiet (readDirs host dirs) w
      (Stand host time (dirs.flatMap (fun dir => files.filter (fun entry => entry.1.1 = dir))))
      (Fault host) := by
  induction dirs generalizing w with
  | nil => exact Quiet.pure .nil
  | cons dir dirs ih =>
    refine Quiet.seq (fun _ => True) (Quiet.touch (by decide) trivial) fun _ w₁ _ hl₁ => ?_
    refine Quiet.bind (Quiet.passes (hsafe dir mem_cons_self)) fun _ w₂ _ hl₂ => ?_
    have hfiles₂ : w₂.disk.files = files := (hl₁.trans hl₂).files.trans hfiles
    refine Quiet.seq (fun entries => entries = files.filter (fun entry => entry.1.1 = dir))
      (Quiet.look (by rw [hfiles₂])) fun entries w₃ hentries hl₃ => ?_
    subst hentries
    have hl := (hl₁.trans hl₂).trans hl₃
    refine (readEntries_quiet hclock hjson _
      (fun entry he => hgood entry (mem_of_mem_filter he))
      (Int.le_trans hw (hclock hl.ticks))).bind fun records w₄ hrecords hl₄ => ?_
    refine (ih (fun d hd => hsafe d (mem_cons_of_mem _ hd))
      ((hl.trans hl₄).files.trans hfiles)
      (Int.le_trans hw (hclock (hl.trans hl₄).ticks))).bind fun rest w₅ hrest _ => ?_
    rw [flatMap_cons]
    exact Quiet.pure (rel_append hrecords hrest)

/-- What a read of everything returns: the record of each revision, and nothing else. -/
structure Everything (host : Host) (w : World) (records : List StoredPlan) : Prop where
  complete : ∀ {key bytes}, w.disk.files.get key = some bytes →
    ∃ r ∈ records, bytes = r.bytes ∧ Good host key (host.clock w.ticks) r
  stored : ∀ r ∈ records, ∃ key, Stored w key r ∧ Good host key (host.clock w.ticks) r

variable {records : List StoredPlan}

omit hclock hjson in
theorem stand_mem {entries : List (Key × List UInt8)} (h : Stand host time entries records) :
    (∀ entry ∈ entries, ∃ r ∈ records, entry.2 = r.bytes ∧ Good host entry.1 time r) ∧
      ∀ r ∈ records, ∃ entry ∈ entries, entry.2 = r.bytes ∧ Good host entry.1 time r := by
  induction h with
  | nil => simp
  | cons hr _ ih =>
    obtain ⟨hleft, hright⟩ := ih
    constructor
    · intro entry hmem
      rcases mem_cons.mp hmem with rfl | hmem
      · exact ⟨_, mem_cons_self, hr⟩
      · obtain ⟨r, hmem', hr'⟩ := hleft entry hmem
        exact ⟨r, mem_cons_of_mem _ hmem', hr'⟩
    · intro r hmem
      rcases mem_cons.mp hmem with rfl | hmem
      · exact ⟨_, mem_cons_self, hr⟩
      · obtain ⟨entry, hmem', hr'⟩ := hright r hmem
        exact ⟨entry, mem_cons_of_mem _ hmem', hr'⟩

theorem readAll_quiet (hs : Sound host w) :
    Quiet (readAll host) w (Everything host w) (Fault host) := by
  have hmem : ∀ {key bytes}, (key, bytes) ∈ w.disk.files ↔ w.disk.files.get key = some bytes :=
    (OrderedMap.get_eq_some_iff hs.distinct).symm
  refine Quiet.seq (fun _ => True) (Quiet.touch (by decide) trivial) fun _ w₁ _ hl₁ => ?_
  refine Quiet.seq (fun dirs => dirs = w₁.disk.dirs) (Quiet.look rfl) fun dirs w₂ hdirs hl₂ => ?_
  have hl := hl₁.trans hl₂
  have hs₁ := hs.later hclock hl₁
  subst hdirs
  have hgood : ∀ entry ∈ w.disk.files, ∃ r : StoredPlan,
      entry.2 = r.bytes ∧ Good host entry.1 (host.clock w.ticks) r :=
    fun entry hentry => (hs.files (hmem.mp hentry)).2
  refine (readDirs_quiet hclock hjson _ hs₁.dirs hl.files hgood (hclock hl.ticks)).mono ?_
    (fun _ h => h)
  intro records hstand
  obtain ⟨hleft, hright⟩ := stand_mem hstand
  constructor
  · intro key bytes hget
    refine hleft (key, bytes) (mem_flatMap.mpr ⟨key.1, ?_, ?_⟩)
    · exact hl₁.dirs _ (hs.files hget).1
    · exact mem_filter.mpr ⟨hmem.mpr hget, decide_eq_true rfl⟩
  · intro r hr
    obtain ⟨entry, hentry, hbytes, hgood⟩ := hright r hr
    obtain ⟨dir, -, hfilter⟩ := mem_flatMap.mp hentry
    refine ⟨entry.1, ?_, hgood⟩
    exact (hmem.mp (mem_of_mem_filter hfilter)).trans (congrArg some hbytes)

/-- What a read of one revision returns. -/
def Found (host : Host) (w : World) (key : Key) (found : Option StoredPlan) : Prop :=
  w.disk.files.get key = found.map StoredPlan.bytes ∧
    ∀ r, found = some r → Good host key (host.clock w.ticks) r

theorem readAt_quiet (hs : Sound host w) (key : Key) :
    Quiet (readAt host key) w (Found host w key) (Fault host) := by
  refine Quiet.seq (fun _ => True) (Quiet.touch (by decide) trivial) fun _ w₁ _ hl₁ => ?_
  refine Quiet.seq (fun found => found = w.disk.files.get key)
    (Quiet.look (by rw [hl₁.files])) fun found w₂ hfound hl₂ => ?_
  subst hfound
  have hl := hl₁.trans hl₂
  cases hget : w.disk.files.get key with
  | none => exact Quiet.pure ⟨hget, fun r hr => nomatch hr⟩
  | some bytes =>
    obtain ⟨-, r, rfl, hgood⟩ := hs.files hget
    refine (readRecord_quiet hclock hjson hgood (hclock hl.ticks)).bind fun r' w₃ hr' _ => ?_
    subst hr'
    refine (checkIdentity_quiet hgood).bind fun _ _ _ _ => Quiet.pure ⟨hget, ?_⟩
    intro r hr
    cases hr
    exact hgood

/-- No higher revision of the plan is there. -/
def Current (w : World) (key : Key) : Prop :=
  ∀ {key' bytes}, w.disk.files.get key' = some bytes → key'.1 = key.1 → key'.2 ≤ key.2

omit hclock hjson in
theorem Everything.current (h : Everything host w records)
    (hno : (!records.any (fun r => r.plan.planId = key.1 && key.2 < r.plan.revision)) = true) :
    Current w key := by
  intro key' bytes hget hsame
  obtain ⟨r, hr, -, hgood⟩ := h.complete hget
  by_contra hgreater
  have hany : records.any (fun r => r.plan.planId = key.1 && key.2 < r.plan.revision) = true := by
    refine any_eq_true.mpr ⟨r, hr, ?_⟩
    rw [hgood.planId, hgood.revision]
    simp only [Bool.and_eq_true, decide_eq_true_eq]
    exact ⟨hsame, UInt64.not_le.mp hgreater⟩
  rw [hany] at hno
  cases hno

/-- Any error but the one of the flush after the rename. -/
def Before (e : StoreError) : Prop := e ≠ .io .published

omit hclock hjson in
theorem fault_before {e : StoreError} (h : Fault host e) : Before e := by
  obtain ⟨-, step, rfl, hstep⟩ := h
  intro heq
  cases heq
  exact hstep rfl

theorem checkCurrentRevision_quiet (hs : Sound host w) (key : Key) :
    Quiet (checkCurrentRevision host key) w (fun _ => Current w key) Before := by
  refine ((readAll_quiet hclock hjson hs).mono (fun _ h => h) (fun _ => fault_before)).bind ?_
  intro records w₁ hrecords _
  exact Quiet.require (fun hno => hrecords.current hno) (fun _ heq => nomatch heq)

/-! ## Recovery -/

omit hclock hjson in
theorem removeTemp_quiet (key : Key) :
    Quiet (removeTemp host key) w (fun _ => True) (Fault host) := by
  refine Quiet.seq (fun _ => True) (Quiet.touch (by decide) trivial) fun _ w₁ _ _ => ?_
  refine Quiet.seq (fun _ => True) (Quiet.changeDisk (.of_same rfl rfl (Nat.le_refl _)) trivial) ?_
  exact fun _ _ _ _ => Quiet.touch (by decide) trivial

omit hclock hjson in
theorem recoverDir_quiet (dir : String) :
    Quiet (recoverDir host dir) w (fun _ => True) (Fault host) := by
  refine Quiet.seq (fun _ => True) (Quiet.touch (by decide) trivial) fun _ w₁ _ _ => ?_
  refine Quiet.seq (fun _ => True) (Quiet.look trivial) fun temps w₂ _ _ => ?_
  refine (Quiet.forEach (fun key w₃ _ => removeTemp_quiet key) temps).bind ?_
  exact fun _ _ _ _ => Quiet.touch (by decide) trivial

theorem recoverInner_quiet (hs : Sound host w) :
    Quiet (recoverInner host) w (fun _ => True) (Fault host) := by
  refine (readAll_quiet hclock hjson hs).bind fun _ w₁ _ _ => ?_
  refine Quiet.seq (fun _ => True) (Quiet.look trivial) fun dirs w₂ _ _ => ?_
  exact Quiet.forEach (fun dir w₃ _ => recoverDir_quiet dir) dirs

theorem enter_quiet (hs : Sound host w) : Quiet (enter host) w (fun _ => True) (Fault host) := by
  refine Quiet.seq (fun _ => True) (Quiet.touch (by decide) trivial) fun _ w₁ _ hl => ?_
  exact recoverInner_quiet hclock hjson (hs.later hclock hl)

theorem openStore_quiet (hs : Sound host w) (hinstance : validStoreId host.instanceId = true)
    (hworkspace : validStoreId host.workspaceId = true) :
    Quiet (openStore host) w (fun _ => True) (Fault host) := by
  refine (Quiet.passes hinstance).bind fun _ w₁ _ hl₁ => ?_
  refine (Quiet.passes hworkspace).bind fun _ w₂ _ hl₂ => ?_
  refine Quiet.seq (fun _ => True) (Quiet.touch (by decide) trivial) fun _ w₃ _ hl₃ => ?_
  refine Quiet.seq (fun _ => True) (Quiet.touch (by decide) trivial) fun _ w₄ _ hl₄ => ?_
  refine Quiet.seq (fun _ => True) (Quiet.touch (by decide) trivial) fun _ w₅ _ hl₅ => ?_
  have hl := (((hl₁.trans hl₂).trans hl₃).trans hl₄).trans hl₅
  exact recoverInner_quiet hclock hjson (hs.later hclock hl)

end sound

end reading

end Orkworksd.Coordinator
