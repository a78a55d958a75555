import Orkworksd.Lib.Run
import Orkworksd.Taskmaster.CoordinatorStoreCalls

/- The life of coordinator plans over every run of the store: operations that return or fail,
   crashes in the middle of one, and openings, in any order.

   A committed change keeps the disk sound (`Committed.sound`), so every opening succeeds and
   every record has a proper history. A final record allows no change, and no step writes a
   record without one.

   Main result: `plan_lifecycle_safe`. -/
namespace Orkworksd.Coordinator
open Lib Lib.Prog List OrderedMap

variable {old : Option StoredPlan} {new : StoredPlan} {host : Host} {w : World}

variable {w' : World} {key : Key}

/-! ## Committed records are good -/

variable {env : Env} {a : PlanApproval} {time : Int} {plan : PlanRevision}

theorem historyOk_singleton (hvalid : a.validateAgainstAt env plan time = .ok ()) :
    HistoryOk env plan time [a] where
  valid := by
    intro b hb
    rw [mem_singleton.mp hb]
    obtain ⟨hplan, hversion, hid, huser, s, t, hs, ht, hle, hst, -, hbinds⟩ :=
      validateAgainstAt_ok.mp hvalid
    exact ⟨s, hs, hle, validateAgainstAt_ok.mpr ⟨hplan, hversion, hid, huser, s, t, hs, ht,
      Int.le_refl _, hst, hst, hbinds⟩⟩
  ids := nodup_singleton _
  times := pairwise_singleton _ _

theorem HistoryOk.append {history : List PlanApproval} (h : HistoryOk env plan time history)
    (hone : HistoryOk env plan time [a]) (hid : a.approvalId ∉ history.map PlanApproval.approvalId)
    (hlast : ∀ b ∈ history, ∀ s t, env.parseTime b.approvedAt = some s →
      env.parseTime a.approvedAt = some t → s < t) : HistoryOk env plan time (history ++ [a]) where
  valid := by
    intro b hb
    rcases mem_append.mp hb with hb | hb
    · exact h.valid b hb
    · exact hone.valid b hb
  ids := by
    rw [map_append]
    refine nodup_append.mpr ⟨h.ids, hone.ids, ?_⟩
    intro x hx y hy heq
    rw [map_singleton, mem_singleton] at hy
    exact hid (hy ▸ heq ▸ hx)
  times := by
    refine pairwise_append.mpr ⟨h.times, hone.times, ?_⟩
    intro b hb c hc
    rw [mem_singleton.mp hc]
    exact hlast b hb

theorem HistoryOk.before_last {s t : Int} {history : List PlanApproval} {b : PlanApproval}
    (h : HistoryOk env plan time history) (hlast : history.getLast? = some a) (hb : b ∈ history)
    (hs : env.parseTime b.approvedAt = some s) (ht : env.parseTime a.approvedAt = some t) :
    s ≤ t := by
  obtain ⟨front, rfl⟩ := List.getLast?_eq_some_iff.mp hlast
  rcases mem_append.mp hb with hb | hb
  · have hpair := (pairwise_append.mp h.times).2.2 b hb a (mem_singleton_self a)
    exact Int.le_of_lt (hpair s t hs ht)
  · rw [mem_singleton.mp hb, ht] at hs
    cases hs
    exact Int.le_refl _

theorem validateContent_revision {p : PlanProposalInput} (h : p.validateContent env = .ok ()) :
    p.revision ≠ 0 := by
  unfold PlanProposalInput.validateContent at h
  obtain ⟨-, h⟩ := seq_eq_ok.mp h
  obtain ⟨-, h⟩ := seq_eq_ok.mp h
  obtain ⟨-, h⟩ := seq_eq_ok.mp h
  obtain ⟨-, h⟩ := seq_eq_ok.mp h
  obtain ⟨-, h⟩ := seq_eq_ok.mp h
  obtain ⟨hrevision, -⟩ := seq_eq_ok.mp h
  exact of_decide_eq_false (refuseIf_ok.mp hrevision)

/-- No transition leads back to a proposal, and none to a status that needs an approval from
one that has none. -/
theorem allowsTransition_next {s next : PlanStatus} (h : s.allowsTransition next = true)
    (hs : s ≠ .draft) :
    next ≠ .draft ∧ next ≠ .proposed ∧ (next ∈ approvedStatuses → s ∈ approvedStatuses) := by
  revert h hs
  cases s <;> cases next <;> decide

section committed
variable {host : Host} {call : Call host.env} {old : Option StoredPlan} {new : StoredPlan}
  {w w' : World}

theorem Published.live_approval {record : StoredPlan}
    (h : Published host key old (record.approve a) w w') :
    Current w key ∧ ∃ n, w.ticks ≤ n ∧ n ≤ w'.ticks ∧
      a.validateAgainstAt host.env record.plan (host.clock n) = .ok () := by
  obtain ⟨b, n, hb, hn, hn', hvalid⟩ := h.live rfl
  cases hb
  exact ⟨h.current (.inr rfl), n, hn, hn', hvalid⟩

theorem good_approve {record : StoredPlan} (hgood : Good host key time record)
    (hsize : (record.approve a).bytes.length ≤ maxRecordBytes)
    (hhistory : HistoryOk host.env record.plan time (record.approvalHistory ++ [a])) :
    Good host key time (record.approve a) :=
  { hgood with
    size := hsize
    stored := by intro heq; cases heq
    unapproved := by intro heq; cases heq
    approved := by
      intro b hb
      cases hb
      refine ⟨?_, ?_, hhistory⟩
      · intro heq
        cases heq
      · exact List.getLast?_concat }

theorem Committed.new_good (hclock : Monotone host.clock) (h : Committed host call old new w w') :
    Good host call.target (host.clock w'.ticks) new := by
  obtain ⟨hsafe, hchange, hp, hold⟩ := h
  cases hchange with
  | @propose plan haccepted hinstance hworkspace =>
    obtain ⟨input, hinput⟩ := haccepted
    obtain ⟨hcontent, hplan, -⟩ := fromProposal_ok.mp hinput
    have hrevision : plan.revision = input.revision := congrArg (fun p => p.revision) hplan
    exact
      { accepted := ⟨input, hinput⟩
        safe := hsafe
        planId := rfl
        revision := rfl
        positive := fun heq => validateContent_revision hcontent (hrevision.symm.trans heq)
        instanceId := hinstance
        workspaceId := hworkspace
        size := hp.size
        stored := by intro heq; cases heq
        unapproved := fun _ => ⟨rfl, by simp [StoredPlan.proposed, approvedStatuses]⟩
        approved := by intro a ha; cases ha }
  | @activate a _ record hstatus _ =>
    have hgood := hold record rfl
    obtain ⟨-, n, -, hn, hvalid⟩ := hp.live_approval
    refine good_approve hgood hp.size ?_
    rw [(hgood.unapproved_of_proposed hstatus).2]
    exact (historyOk_singleton hvalid).later (hclock hn)
  | @transition _ _ _ _ next record hallowed hnext =>
    have hgood := hold record rfl
    obtain ⟨hdraft, hproposed, happroved⟩ := allowsTransition_next hallowed hgood.stored
    refine { hgood with size := hp.size, stored := hdraft, unapproved := ?_, approved := ?_ }
    · intro hnone
      obtain ⟨hempty, hstatus⟩ := hgood.unapproved hnone
      exact ⟨hempty, fun hmem => hstatus (happroved hmem)⟩
    · intro a ha
      exact ⟨hproposed, (hgood.approved a ha).2⟩
  | @resume a _ _ record hstatus _ hrenewal =>
    have hgood := hold record rfl
    obtain ⟨-, n, -, hn, hvalid⟩ := hp.live_approval
    obtain ⟨previous, s, t, hprevious, hs, ht, hst⟩ := hrenewal.later
    obtain ⟨-, hlast, hhistory⟩ := hgood.approved previous hprevious
    refine good_approve hgood hp.size ?_
    refine hhistory.append ((historyOk_singleton hvalid).later (hclock hn)) hrenewal.unused ?_
    intro b hb s' t' hs' ht'
    rw [ht] at ht'
    cases ht'
    exact Int.lt_of_le_of_lt (hhistory.before_last hlast hb hs' hs) hst

theorem Committed.sound (hclock : Monotone host.clock) (hs : Sound host w)
    (h : Committed host call old new w w') : Sound host w' where
  distinct := by
    rw [h.published.files]
    exact nodup_keys_set hs.distinct
  dirs := h.published.safe h.safe hs.dirs
  files := by
    intro key bytes hget
    rw [h.published.files] at hget
    by_cases hkey : key = call.target
    · subst hkey
      rw [get_set, if_pos rfl] at hget
      cases hget
      exact ⟨h.published.own, new, rfl, h.new_good hclock⟩
    · rw [get_set, if_neg (Ne.symm hkey)] at hget
      obtain ⟨hdir, r, hbytes, hgood⟩ := hs.files hget
      exact ⟨h.published.dirs _ hdir, r, hbytes, hgood.later (hclock h.published.ticks)⟩

end committed

/-! ## Runs -/

inductive Event (host : Host) where
  | operation (call : Call host.env)
  | crash (call : Call host.env)
  | opening
  | crashedOpening

/-- The operation that ran, to its end or not. -/
def Event.ran {host : Host} : Event host → Option (Call host.env)
  | .operation c => some c
  | .crash c => some c
  | .opening => none
  | .crashedOpening => none

/-- A process that starts later on the disk that a crash left. -/
structure Restart (t w : World) : Prop where
  disk : w.disk = t.disk
  ticks : t.ticks ≤ w.ticks

/-- An operation or an opening, to its end or up to a crash. -/
inductive Step (host : Host) (w : World) : Event host → World → Prop where
  | called (call : Call host.env) : Step host w (.operation call) (call.run host w).last
  | crashed (call : Call host.env) {t w' : World} (hstate : t ∈ w :: (call.run host w).states)
      (hrestart : Restart t w') : Step host w (.crash call) w'
  | opened : Step host w .opening (openStore host w).last
  | openCrashed {t w' : World} (hstate : t ∈ w :: (openStore host w).states)
      (hrestart : Restart t w') : Step host w .crashedOpening w'

theorem Later.restart {t : World} (h : Later w t) (hr : Restart t w') : Later w w' :=
  h.trans (.of_same (congrArg Disk.files hr.disk) (congrArg Disk.dirs hr.disk) hr.ticks)

theorem Committed.restart {call : Call host.env} {t : World} (hclock : Monotone host.clock)
    (h : Committed host call old new w t) (hr : Restart t w') :
    Committed host call old new w w' where
  safe := h.safe
  change := h.change
  published :=
    { before := h.published.before
      files := (congrArg Disk.files hr.disk).trans h.published.files
      size := h.published.size
      current := h.published.current
      live := by
        intro hlive
        obtain ⟨a, n, ha, hn, hn', hvalid⟩ := h.published.live hlive
        exact ⟨a, n, ha, hn, Nat.le_trans hn' hr.ticks, hvalid⟩
      own := hr.disk.symm ▸ h.published.own
      dirs := fun dir hd => hr.disk.symm ▸ h.published.dirs dir hd
      safe := fun hkey hs dir hd => h.published.safe hkey hs dir (hr.disk ▸ hd)
      ticks := Nat.le_trans h.published.ticks hr.ticks }
  good := fun r hr' => (h.good r hr').later (hclock hr.ticks)

/-- The record in a file of the store. -/
def recordAt (host : Host) (w : World) (key : Key) : Option StoredPlan :=
  (w.disk.files.get key).bind fun bytes =>
    ((host.env.parseJson bytes).bind (DiskRecord.read host.env)).map fun disk =>
      { plan := disk.plan
        status := disk.status
        approval := disk.approval
        approvalHistory := disk.approvalHistory.getD disk.approval.toList }

def finalStatuses : List PlanStatus :=
  [.completed, .failed, .cancelled, .expired, .revoked, .recoveryRequired]

theorem final_unchanged {call : Call host.env} {r : StoredPlan}
    (hfinal : r.status ∈ finalStatuses) : ¬ Change host call (some r) new := by
  intro h
  cases h with
  | activate hstatus _ =>
    rw [hstatus] at hfinal
    revert hfinal
    decide
  | @transition _ _ _ _ next _ hallowed _ =>
    revert hallowed hfinal
    cases r.status <;> cases next <;> decide
  | resume hstatus _ _ =>
    rw [hstatus] at hfinal
    revert hfinal
    decide

/-- The current generation that an operation is told. -/
def Call.generation {env : Env} : Call env → Option UInt64
  | .putProposed _ _ => none
  | .activate _ generation => some generation
  | .transition _ _ _ generation _ => some generation
  | .resume _ generation _ => some generation

/-- The approval names this plan and nothing else, in its current generation. -/
structure BoundTo (a : PlanApproval) (plan : PlanRevision) : Prop where
  planId : a.planId = plan.planId
  revision : a.revision = plan.revision
  planDigest : a.planDigest = plan.planDigest
  evidenceDigest : a.evidenceDigest = plan.evidenceDigest
  generation : a.revocationGeneration = plan.revocationGeneration

/-- No higher revision is there, and the record has an approval of exactly this plan that had
not expired at a time during the step, in the generation that the operation was told. -/
structure EntersActive (host : Host) (event : Event host) (w w' : World) (key : Key)
    (r : StoredPlan) : Prop where
  current : Current w' key
  approved : ∃ a n expires, r.approval = some a ∧ BoundTo a r.plan ∧
    event.ran.bind Call.generation = some a.revocationGeneration ∧ w.ticks ≤ n ∧ n ≤ w'.ticks ∧
    host.env.parseTime a.expiresAt = some expires ∧ host.clock n < expires

/-- The revision is as the operation makes it, and the others are untouched. -/
structure Succeeded (host : Host) (call : Call host.env) (w w' : World) : Prop where
  record : recordAt host w' call.target = call.after (recordAt host w call.target)
  others : ∀ key, key ≠ call.target → w'.disk.files.get key = w.disk.files.get key

/-- The first approval was given before the second. -/
def Earlier (env : Env) (a b : PlanApproval) : Prop :=
  ∃ s t, env.parseTime a.approvedAt = some s ∧ env.parseTime b.approvedAt = some t ∧ s < t

theorem Good.history {r : StoredPlan} (h : Good host key time r) :
    (r.approvalHistory.map PlanApproval.approvalId).Nodup ∧
      r.approvalHistory.Pairwise (Earlier host.env) := by
  cases happroval : r.approval with
  | none =>
    rw [(h.unapproved happroval).1]
    exact ⟨nodup_nil, .nil⟩
  | some a =>
    obtain ⟨-, -, hhistory⟩ := h.approved a happroval
    refine ⟨hhistory.ids, hhistory.times.imp_of_mem ?_⟩
    intro b c hb hc hbefore
    obtain ⟨s, hs, -, -⟩ := hhistory.valid b hb
    obtain ⟨t, ht, -, -⟩ := hhistory.valid c hc
    exact ⟨s, t, hs, ht, hbefore s t hs ht⟩

theorem boundTo_of_valid (h : a.validateAgainstAt env plan time = .ok ()) : BoundTo a plan := by
  obtain ⟨hplan, -, -, -, -, -, -, -, -, -, -, hbinds⟩ := validateAgainstAt_ok.mp h
  obtain ⟨hid, hrevision, hdigest, hevidence, hgeneration⟩ := binds_fields hbinds
  have hdigested := (validate_ok.mp hplan).2
  exact ⟨hid, hrevision, hdigest.trans (congrArg (fun p => p.planDigest) hdigested).symm,
    hevidence.trans (congrArg (fun p => p.evidenceDigest) hdigested).symm, hgeneration⟩

theorem Change.active {call : Call host.env} (h : Change host call old new)
    (hactive : new.status = .active) :
    ∃ (a : PlanApproval) (record : StoredPlan), new = record.approve a ∧ call.generation = some a.revocationGeneration := by
  cases h with
  | propose _ _ => cases hactive
  | @activate a _ record _ hgeneration => exact ⟨a, record, rfl, congrArg some hgeneration.symm⟩
  | transition _ hnext => exact absurd hactive hnext
  | @resume a _ _ record _ hgeneration _ => exact ⟨a, record, rfl, congrArg some hgeneration.symm⟩

theorem Committed.entersActive {event : Event host} {call : Call host.env}
    (h : Committed host call old new w w') (hran : event.ran = some call)
    (hactive : new.status = .active) : EntersActive host event w w' call.target new := by
  obtain ⟨a, record, rfl, hgeneration⟩ := h.change.active hactive
  obtain ⟨hcurrent, n, hn, hn', hvalid⟩ := h.published.live_approval
  obtain ⟨-, -, -, -, s, expires, -, hexpires, -, -, hlive, -⟩ := validateAgainstAt_ok.mp hvalid
  constructor
  · intro key bytes hget hsame
    rw [h.published.files, get_set] at hget
    split at hget
    · rename_i hkey
      rw [hkey]
      exact UInt64.le_refl _
    · exact hcurrent hget hsame
  · refine ⟨a, n, expires, rfl, boundTo_of_valid hvalid, ?_, hn, hn', hexpires, hlive⟩
    rw [hran]
    exact hgeneration

section steps
variable {host : Host} {w w' : World} (hclock : Monotone host.clock)
  (hjson : ∀ r : StoredPlan, host.env.parseJson r.bytes = some r.value)
include hclock hjson

variable {event : Event host}

variable {call : Call host.env}

theorem step_cases (hs : Sound host w) (hinstance : validStoreId host.instanceId = true)
    (hworkspace : validStoreId host.workspaceId = true) (h : Step host w event w') :
    Later w w' ∨ ∃ call old new, event.ran = some call ∧ Committed host call old new w w' := by
  cases h with
  | called call =>
    have hcall := call_changes hclock hjson call hs
    cases hresult : (call.run host w).result with
    | ok u =>
      rcases hcall.ok u hresult with hl | ⟨old, new, hc⟩
      · exact .inl hl.1
      · exact .inr ⟨call, old, new, rfl, hc⟩
    | error e =>
      rcases hcall.error e hresult with hl | ⟨-, old, new, hc⟩
      · exact .inl hl.2
      · exact .inr ⟨call, old, new, rfl, hc⟩
  | crashed call hstate hrestart =>
    rcases mem_cons.mp hstate with rfl | hstate
    · exact .inl ((Later.refl _).restart hrestart)
    · rcases (call_changes hclock hjson call hs).states _ hstate with hl | ⟨old, new, hc⟩
      · exact .inl (hl.restart hrestart)
      · exact .inr ⟨call, old, new, rfl, hc.restart hclock hrestart⟩
  | opened =>
    have hopen := openStore_quiet hclock hjson hs hinstance hworkspace
    cases hresult : (openStore host w).result with
    | ok u => exact .inl (hopen.ok u hresult).2
    | error e => exact .inl (hopen.error e hresult).2
  | openCrashed hstate hrestart =>
    have hopen := openStore_quiet hclock hjson hs hinstance hworkspace
    rcases mem_cons.mp hstate with rfl | hstate
    · exact .inl ((Later.refl _).restart hrestart)
    · exact .inl ((hopen.states _ hstate).restart hrestart)

theorem step_sound (hs : Sound host w) (hinstance : validStoreId host.instanceId = true)
    (hworkspace : validStoreId host.workspaceId = true) (h : Step host w event w') :
    Sound host w' := by
  rcases step_cases hclock hjson hs hinstance hworkspace h with hl | ⟨call, old, new, -, hc⟩
  · exact hs.later hclock hl
  · exact hc.sound hclock hs

variable {key : Key} {r : StoredPlan}

omit hclock in
theorem recordAt_good (hstored : Stored w key r) (hgood : Good host key time r) :
    recordAt host w key = some r := by
  obtain ⟨input, hinput⟩ := hgood.accepted
  unfold Stored at hstored
  rw [recordAt, hstored, Option.bind_some, hjson, Option.bind_some, record_read hinput]
  rfl

omit hclock in
theorem recordAt_eq_some (hs : Sound host w) (h : recordAt host w key = some r) :
    Stored w key r ∧ Good host key (host.clock w.ticks) r := by
  cases hget : w.disk.files.get key with
  | none =>
    rw [recordAt, hget] at h
    cases h
  | some bytes =>
    obtain ⟨-, r', rfl, hgood⟩ := hs.files hget
    have heq : some r' = some r := (recordAt_good hjson hget hgood).symm.trans h
    cases heq
    exact ⟨hget, hgood⟩

omit hclock hjson in
theorem recordAt_congr (h : w'.disk.files.get key = w.disk.files.get key) :
    recordAt host w' key = recordAt host w key := by
  rw [recordAt, h, recordAt]

omit hclock in
theorem Committed.old_recordAt
    (h : Committed host call old new w w') : recordAt host w call.target = old := by
  cases old with
  | none =>
    rw [recordAt, h.published.before]
    rfl
  | some r => exact recordAt_good hjson h.published.before (h.good r rfl)

theorem Committed.new_recordAt
    (h : Committed host call old new w w') : recordAt host w' call.target = some new := by
  refine recordAt_good hjson ?_ (h.new_good hclock)
  rw [Stored, h.published.files, get_set, if_pos rfl]

omit hclock hjson in
theorem Committed.others (h : Committed host call old new w w') (hkey : key ≠ call.target) :
    w'.disk.files.get key = w.disk.files.get key := by
  rw [h.published.files, get_set, if_neg (Ne.symm hkey)]

/-! ## The properties of a run -/

theorem step_final (hs : Sound host w) (hinstance : validStoreId host.instanceId = true)
    (hworkspace : validStoreId host.workspaceId = true) (h : Step host w event w')
    (hrecord : recordAt host w key = some r) (hfinal : r.status ∈ finalStatuses) :
    w'.disk.files.get key = w.disk.files.get key := by
  rcases step_cases hclock hjson hs hinstance hworkspace h with hl | ⟨call, old, new, -, hc⟩
  · rw [hl.files]
  · by_cases hkey : key = call.target
    · subst hkey
      have hold : some r = old := hrecord.symm.trans (hc.old_recordAt hjson)
      exact absurd (hold ▸ hc.change) (final_unchanged hfinal)
    · exact hc.others hkey

theorem run_final {events : List (Event host)} (hs : Sound host w)
    (hinstance : validStoreId host.instanceId = true)
    (hworkspace : validStoreId host.workspaceId = true) (h : Run (Step host) w events w')
    (hrecord : recordAt host w key = some r) (hfinal : r.status ∈ finalStatuses) :
    w'.disk.files.get key = w.disk.files.get key := by
  refine (Run.invariant
    (fun t => Sound host t ∧ t.disk.files.get key = w.disk.files.get key) ⟨hs, rfl⟩ ?_ h).2
  intro t event t' ht hstep
  have hrecord' : recordAt host t key = some r := (recordAt_congr ht.2).trans hrecord
  refine ⟨step_sound hclock hjson ht.1 hinstance hworkspace hstep, ?_⟩
  exact (step_final hclock hjson ht.1 hinstance hworkspace hstep hrecord' hfinal).trans ht.2

theorem step_active (hs : Sound host w) (hinstance : validStoreId host.instanceId = true)
    (hworkspace : validStoreId host.workspaceId = true) (h : Step host w event w')
    (hrecord : recordAt host w' key = some r) (hactive : r.status = .active)
    (hbefore : ∀ r', recordAt host w key = some r' → r'.status ≠ .active) :
    EntersActive host event w w' key r := by
  rcases step_cases hclock hjson hs hinstance hworkspace h with hl | ⟨call, old, new, hran, hc⟩
  · have hsame : recordAt host w key = some r := by
      rw [← hrecord]
      exact (recordAt_congr (by rw [hl.files])).symm
    exact absurd hactive (hbefore r hsame)
  · by_cases hkey : key = call.target
    · subst hkey
      have hnew : some new = some r := (hc.new_recordAt hclock hjson).symm.trans hrecord
      cases hnew
      exact hc.entersActive hran hactive
    · have hsame : recordAt host w key = some r := by
        rw [← hrecord]
        exact (recordAt_congr (hc.others hkey)).symm
      exact absurd hactive (hbefore r hsame)

theorem call_outcome (call : Call host.env) (hs : Sound host w) :
    match (call.run host w).result with
    | .ok _ => Succeeded host call w (call.run host w).last
    | .error e => (call.run host w).last.disk.files = w.disk.files ∨
        e = .io .published ∧ Succeeded host call w (call.run host w).last := by
  have hcommitted : ∀ {t}, (∃ old new, Committed host call old new w t) →
      Succeeded host call w t := by
    intro t ht
    obtain ⟨old, new, hc⟩ := ht
    refine ⟨?_, fun key hkey => hc.others hkey⟩
    rw [hc.old_recordAt hjson, hc.change.after]
    exact hc.new_recordAt hclock hjson
  have hcall := call_changes hclock hjson call hs
  split
  · rename_i u hresult
    rcases hcall.ok u hresult with ⟨hl, r, time, hstored, hgood, hafter⟩ | hc
    · refine ⟨?_, fun key _ => by rw [hl.files]⟩
      rw [recordAt_congr (congrArg (fun files => OrderedMap.get files call.target) hl.files),
        recordAt_good hjson hstored hgood, hafter]
    · exact hcommitted hc
  · rename_i e hresult
    rcases hcall.error e hresult with ⟨-, hl⟩ | ⟨hpublished, hc⟩
    · exact .inl hl.files
    · exact .inr ⟨hpublished, hcommitted hc⟩

end steps

theorem Sound.faultless (h : Sound host w) (faults : Nat → Bool) :
    Sound { host with faults := faults } w where
  distinct := h.distinct
  dirs := h.dirs
  files := by
    intro key bytes hget
    obtain ⟨hdir, r, hbytes, hr⟩ := h.files hget
    exact ⟨hdir, r, hbytes, hr.accepted, hr.safe, hr.planId, hr.revision, hr.positive,
      hr.instanceId, hr.workspaceId, hr.size, hr.stored, hr.unapproved, hr.approved⟩

/-- Nothing is stored yet. -/
def Fresh (w : World) : Prop := w.disk = ⟨[], [], []⟩

theorem Fresh.sound (host : Host) (h : Fresh w) : Sound host w where
  distinct := by
    rw [h]
    exact nodup_nil
  dirs := by
    rw [h]
    intro dir hd
    cases hd
  files := by
    rw [h]
    intro key bytes hget
    cases hget

/-- Over every run of operations, crashes and openings: an opening whose file operations do
not fail succeeds; no approval id is used twice in a history and the times increase; a final
record is never written again; a record becomes active on a live approval of the current
revision; and a failed operation leaves the records as they were, or as on success where the
last flush failed. -/
theorem plan_lifecycle_safe (host : Host) (hclock : Monotone host.clock)
    (hjson : ∀ r : StoredPlan, host.env.parseJson r.bytes = some r.value)
    (hinstance : validStoreId host.instanceId = true)
    (hworkspace : validStoreId host.workspaceId = true) {w₀ w : World}
    {events : List (Event host)} (hfresh : Fresh w₀) (hrun : Run (Step host) w₀ events w) :
    (openStore { host with faults := fun _ => false } w).result = .ok () ∧
      (∀ key r, recordAt host w key = some r →
        (r.approvalHistory.map PlanApproval.approvalId).Nodup ∧
          r.approvalHistory.Pairwise (Earlier host.env)) ∧
      (∀ key r, recordAt host w key = some r → r.status ∈ finalStatuses →
        ∀ later w', Run (Step host) w later w' →
          w'.disk.files.get key = w.disk.files.get key ∧ recordAt host w' key = some r) ∧
      (∀ event w' key r, Step host w event w' → recordAt host w' key = some r →
        r.status = .active → (∀ r', recordAt host w key = some r' → r'.status ≠ .active) →
          EntersActive host event w w' key r) ∧
      (∀ (call : Call host.env), (call.run host w).result = .ok () →
        Succeeded host call w (call.run host w).last) ∧
      (∀ (call : Call host.env) e, (call.run host w).result = .error e →
        (call.run host w).last.disk.files = w.disk.files ∨
          e = .io .published ∧ Succeeded host call w (call.run host w).last) := by
  have hs : Sound host w := by
    refine Run.invariant (Sound host) (hfresh.sound host) ?_ hrun
    intro s event t hsound hstep
    exact step_sound hclock hjson hsound hinstance hworkspace hstep
  refine ⟨?_, ?_, ?_, ?_, ?_, ?_⟩
  · have hopen := @openStore_quiet { host with faults := fun _ => false } w hclock hjson
      (hs.faultless (fun _ => false)) hinstance hworkspace
    cases hresult : (openStore { host with faults := fun _ => false } w).result with
    | ok _ => rfl
    | error e =>
      obtain ⟨⟨⟨n, hn⟩, -⟩, -⟩ := hopen.error e hresult
      cases hn
  · intro key r hrecord
    exact (recordAt_eq_some hjson hs hrecord).2.history
  · intro key r hrecord hfinal later w' hlater
    have hsame := run_final hclock hjson hs hinstance hworkspace hlater hrecord hfinal
    exact ⟨hsame, (recordAt_congr hsame).trans hrecord⟩
  · intro event w' key r hstep hrecord hactive hbefore
    exact step_active hclock hjson hs hinstance hworkspace hstep hrecord hactive hbefore
  · intro call hresult
    have h := call_outcome hclock hjson call hs
    rw [hresult] at h
    exact h
  · intro call e hresult
    have h := call_outcome hclock hjson call hs
    rw [hresult] at h
    exact h

/-! ## A proposal, and an activation that a crash cuts -/

theorem approval_numeric (a : PlanApproval) : a.value.Numeric :=
  ⟨Json.ofNat_numeric _, trivial, trivial, trivial, trivial, trivial, Json.ofNat_numeric _, trivial,
    trivial, trivial, trivial, Json.ofNat_numeric _, text_option_numeric _, trivial⟩

theorem record_numeric (r : StoredPlan) : r.value.Numeric :=
  ⟨plan_numeric _, trivial, Json.ofOption_numeric approval_numeric _,
    Json.items_numeric approval_numeric _, trivial⟩

noncomputable def sampleRecordReader (bytes : List UInt8) : Option Json := by
  classical
  exact if h : ∃ r : StoredPlan, r.bytes = bytes then some h.choose.value else none

theorem sampleRecordReader_reads (r : StoredPlan) :
    sampleRecordReader r.bytes = some r.value := by
  have h : ∃ r' : StoredPlan, r'.bytes = r.bytes := ⟨r, rfl⟩
  rw [sampleRecordReader, dif_pos h]
  exact congrArg some (Json.bytes_inj (record_numeric _) (record_numeric r) h.choose_spec)

/-- Seconds since the first of the two times of the sample. -/
def sampleTime (text : String) : Option Int :=
  if text = "2026-01-01T00:00:00Z" then some 0
  else if text = "2026-01-02T00:00:00Z" then some 86400
  else none

noncomputable def sampleHost : Host where
  env := { sampleEnv with parseJson := sampleRecordReader, parseTime := sampleTime }
  clock := fun n => n
  faults := fun _ => false
  written := fun _ => 0
  instanceId := "i1"
  workspaceId := "w1"

theorem sample_proposal_accepted :
    fromProposal sampleHost.env sampleInput = .ok (sampleInput.digested sampleHost.env) := by
  have hcontent : sampleInput.validateContent sampleHost.env = .ok () := by
    decide +kernel
  have hsize : (sampleInput.digested sampleHost.env).serialize.length ≤
      maxPersistedRevisionBytes := by
    decide +kernel
  exact fromProposal_ok.mpr ⟨hcontent, rfl, hsize⟩

def emptyWorld : World := ⟨⟨[], [], []⟩, 0, 0⟩

noncomputable def sampleCall : Call sampleHost.env :=
  .putProposed (sampleInput.digested sampleHost.env) ⟨sampleInput, sample_proposal_accepted⟩

noncomputable def proposedWorld : World := (sampleCall.run sampleHost emptyWorld).last

def sampleApproval : PlanApproval where
  version := 1
  approvalId := "a1"
  userId := "u1"
  instanceId := "i1"
  workspaceId := "w1"
  planId := "p1"
  revision := 1
  planDigest := "a45732623485ed5ea638b9e7fb85eaf92a0742d8d1f4afeb09db5c9a7a9049e0"
  evidenceDigest := "da05da7e27ace6016afff66f089cd0e1fa9b9a4300904e24432eefa0313909e1"
  approvedAt := "2026-01-01T00:00:00Z"
  expiresAt := "2026-01-02T00:00:00Z"
  revocationGeneration := 0
  supersedes := none

noncomputable def sampleActivation : Call sampleHost.env := .activate sampleApproval 0

/-- The approval is one that the plan may be activated by, and wherever a crash cuts the
activation, the store opens again. -/
theorem sample_store_opens :
    PlanStatus.proposed.canActivateAt sampleHost.env sampleApproval
        (sampleInput.digested sampleHost.env) 0 0 = .ok () ∧
      ∀ w ∈ proposedWorld :: (sampleActivation.run sampleHost proposedWorld).states,
        (openStore { sampleHost with faults := fun _ => false } w).result = .ok () := by
  refine ⟨by decide +kernel, fun w hw => ?_⟩
  have hfresh : Fresh emptyWorld := rfl
  exact (plan_lifecycle_safe sampleHost Nat.mono_cast sampleRecordReader_reads (by decide)
    (by decide) hfresh (.next (.next .start (.called sampleCall))
      (.crashed sampleActivation hw ⟨rfl, Nat.le_refl _⟩))).1

end Orkworksd.Coordinator
