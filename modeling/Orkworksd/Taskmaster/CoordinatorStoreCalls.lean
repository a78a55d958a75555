import Orkworksd.Taskmaster.CoordinatorStoreReads

/- What the four operations on coordinator plans may write.

   `Change` says what an operation puts in the place of a record and under which checks,
   `Published` what the publication adds to them. `call_changes` is the only place where an
   operation is taken apart: from a sound disk it makes such a change or leaves the revisions
   alone, and it fails after the change with the error of the last flush only. -/
namespace Orkworksd.Coordinator
open Lib Lib.Prog List

variable {host : Host} {key : Key}

/-! ## Publication -/

/-- This record took the place of what was expected there, and every check had passed. -/
structure Published (host : Host) (key : Key) (expected : Option StoredPlan) (record : StoredPlan)
    (w w' : World) : Prop where
  before : w.disk.files.get key = expected.map StoredPlan.bytes
  files : w'.disk.files = w.disk.files.set key record.bytes
  size : record.bytes.length ≤ maxRecordBytes
  current : expected = none ∨ requiresLiveApproval record.status = true → Current w key
  live : requiresLiveApproval record.status = true → ∃ a n, record.approval = some a ∧
    w.ticks ≤ n ∧ n ≤ w'.ticks ∧ a.validateAgainstAt host.env record.plan (host.clock n) = .ok ()
  own : key.1 ∈ w'.disk.dirs
  dirs : ∀ dir ∈ w.disk.dirs, dir ∈ w'.disk.dirs
  safe : safeId key.1 = true → (∀ dir ∈ w.disk.dirs, safeId dir = true) →
    ∀ dir ∈ w'.disk.dirs, safeId dir = true
  ticks : w.ticks ≤ w'.ticks

theorem Published.after {expected : Option StoredPlan}
    {record : StoredPlan} {w w₁ w' : World} (hl : Later w w₁)
    (h : Published host key expected record w₁ w') : Published host key expected record w w' where
  before := hl.files ▸ h.before
  files := by rw [h.files, hl.files]
  size := h.size
  current := by
    intro hor key' bytes hget
    exact h.current hor (hl.files.symm ▸ hget)
  live := by
    intro hlive
    obtain ⟨a, n, ha, hn, hn', hvalid⟩ := h.live hlive
    exact ⟨a, n, ha, Nat.le_trans hl.ticks hn, hn', hvalid⟩
  own := h.own
  dirs := fun dir hd => h.dirs dir (hl.dirs dir hd)
  safe := fun hkey hs => h.safe hkey (hl.safe hs)
  ticks := Nat.le_trans hl.ticks h.ticks

/-- The program makes the change `C`, or leaves the revisions alone and then `D` holds when it
returns; it fails after the change with the error of the last flush only. -/
def Changes {α : Type} (p : Op α) (w : World) (D : World → Prop) (C : World → World → Prop) :
    Prop :=
  Meets p w (fun _ w' => (Later w w' ∧ D w) ∨ C w w')
    (fun e w' => (Before e ∧ Later w w') ∨ (e = .io .published ∧ C w w'))
    (fun w' => Later w w' ∨ C w w')

structure Told (D : World → Prop) (C : World → World → Prop) : Prop where
  done : ∀ {w w₁}, Later w w₁ → D w₁ → D w
  change : ∀ {w w₁ w'}, Later w w₁ → C w₁ w' → C w w'

section changes
variable {α β : Type} {w : World} {D : World → Prop} {C : World → World → Prop}

variable {p : Op α}

theorem Changes.quiet {post : α → Prop} (h : Quiet p w post Before) (hD : ∀ a, post a → D w) :
    Changes p w D C :=
  Meets.mono h (fun a _ ha => .inl ⟨ha.2, hD a ha.1⟩) (fun _ _ he => .inl he) (fun _ ht => .inl ht)

theorem Changes.fail {e : StoreError} (h : Before e) : Changes (Prog.fail e : Op α) w D C :=
  Changes.quiet (Quiet.fail h : Quiet _ w (fun _ => False) Before) (fun _ hno => hno.elim)

theorem Changes.seq {p : Op α} {f : α → Op β} (mid : α → World → Prop) (htold : Told D C)
    (hp : Meets p w (fun a w' => mid a w' ∧ Later w w') (fun e w' => Before e ∧ Later w w') (Later w))
    (hf : ∀ a w', mid a w' → Later w w' → Changes (f a) w' D C) : Changes (p >>= f) w D C := by
  refine Meets.seq (Meets.mono hp (fun _ _ h => h) (fun _ _ h => .inl h) (fun _ h => .inl h)) ?_
  intro a w₁ ha
  refine Meets.mono (hf a w₁ ha.1 ha.2) ?_ ?_ ?_
  · intro _ w' h
    exact h.imp (fun hl => ⟨ha.2.trans hl.1, htold.done ha.2 hl.2⟩) (htold.change ha.2)
  · intro e w' he
    exact he.imp (fun hl => ⟨hl.1, ha.2.trans hl.2⟩) (fun hc => ⟨hc.1, htold.change ha.2 hc.2⟩)
  · intro w' h
    exact h.imp ha.2.trans (htold.change ha.2)

theorem Changes.bind {f : α → Op β} (mid : α → Prop) (htold : Told D C) (hp : Quiet p w mid Before)
    (hf : ∀ a w', mid a → Later w w' → Changes (f a) w' D C) : Changes (p >>= f) w D C :=
  Changes.seq (fun a _ => mid a) htold hp hf

theorem Changes.map (h : Changes p w D C) (f : α → β) :
    Changes (p >>= fun a => Prog.pure (f a)) w D C :=
  Meets.seq h (fun _ _ hw => Meets.pure' hw)

theorem Changes.mono {p : Op α} {D' : World → Prop} {C' : World → World → Prop}
    (h : Changes p w D C) (hD : D w → D' w) (hC : ∀ w', C w w' → C' w w') :
    Changes p w D' C' := by
  refine Meets.mono h ?_ ?_ (fun w' ht => ht.imp_right (hC w'))
  · exact fun _ w' ha => ha.imp (fun hl => ⟨hl.1, hD hl.2⟩) (hC w')
  · exact fun e w' he => he.imp_right (fun hc => ⟨hc.1, hC w' hc.2⟩)

end changes

section publication
variable {host : Host} {w : World} {key : Key} {expected : Option StoredPlan} {record : StoredPlan}

theorem touch_before {step : FileStep} {post : Unit → Prop} (hstep : step ≠ .published)
    (h : post ()) : Quiet (touch host step) w post Before :=
  (Quiet.touch hstep h).mono (fun _ h => h) (fun _ => fault_before)

theorem ensureDirectory_quiet (hsafe : safeId key.1 = true) :
    Meets (ensureDirectory host key.1) w (fun _ w' => key.1 ∈ w'.disk.dirs ∧ Later w w')
      (fun e w' => Before e ∧ Later w w') (Later w) := by
  refine Meets.seq (touch_before (by decide) trivial : Quiet _ w (fun _ => True) Before) ?_
  intro _ w₁ h₁
  have hdir : key.1 ∈ (if key.1 ∈ w₁.disk.dirs then w₁.disk
      else { w₁.disk with dirs := w₁.disk.dirs ++ [key.1] }).dirs := by
    split
    · assumption
    · exact mem_append_right _ (mem_singleton_self _)
  have hl : Later w₁ { w₁ with disk := if key.1 ∈ w₁.disk.dirs then w₁.disk
      else { w₁.disk with dirs := w₁.disk.dirs ++ [key.1] } } := by
    refine ⟨?_, ?_, ?_, Nat.le_refl _⟩
    · dsimp only
      split <;> rfl
    · intro dir hd
      dsimp only
      split
      · exact hd
      · exact mem_append_left _ hd
    · intro hs dir hd
      dsimp only at hd
      split at hd
      · exact hs dir hd
      · rcases mem_append.mp hd with hd | hd
        · exact hs dir hd
        · rw [mem_singleton.mp hd]
          exact hsafe
  have hlast := h₁.2.trans hl
  refine Meets.bind' (Meets.step' hlast ?_)
  refine Meets.mono (touch_before (by decide) trivial : Quiet _ _ (fun _ => True) Before) ?_ ?_ ?_
  · exact fun _ w₂ h₂ => ⟨h₂.2.dirs _ hdir, hlast.trans h₂.2⟩
  · exact fun _ w₂ h₂ => ⟨h₂.1, hlast.trans h₂.2⟩
  · exact fun w₂ h₂ => hlast.trans h₂

theorem temps_later (temps : Disk → OrderedMap Key (List UInt8)) (w : World) :
    Later w { w with disk := { w.disk with temps := temps w.disk } } :=
  .of_same rfl rfl (Nat.le_refl _)

variable (bytes : List UInt8)

theorem createTemp_quiet : Quiet (createTemp host key bytes) w (fun _ => True) Before := by
  refine Quiet.seq (fun _ => True) (touch_before (by decide) trivial) fun _ w₁ _ _ => ?_
  refine Quiet.seq (fun _ => True) (Quiet.look trivial) fun found w₂ _ _ => ?_
  refine Quiet.seq (fun _ => True)
    (Quiet.require (fun _ => trivial) (fun _ heq => nomatch heq)) fun _ w₃ _ _ => ?_
  refine Quiet.seq (fun _ => True)
    (Quiet.changeDisk (temps_later (fun disk => disk.temps.set key []) w₃) trivial) ?_
  intro _ w₄ _ _
  refine Quiet.seq (fun _ => True) (Quiet.look trivial) fun place w₅ _ _ => ?_
  split
  · refine Quiet.seq (fun _ => True) (Quiet.changeDisk
      (temps_later (fun disk => disk.temps.set key (bytes.take (host.written place))) w₅)
      trivial) ?_
    exact fun _ _ _ _ => touch_before (by decide) trivial
  · refine Quiet.seq (fun _ => True) (touch_before (by decide) trivial) fun _ w₆ _ _ => ?_
    have hlast := temps_later (fun disk => disk.temps.set key bytes) w₆
    refine Meets.during' ?_ hlast ⟨trivial, hlast⟩
    intro t ht
    obtain ⟨part, -, rfl⟩ := mem_map.mp ht
    exact temps_later (fun disk => disk.temps.set key part) w₆

/-- The disk after the rename. -/
def renamed (w : World) (key : Key) (bytes : List UInt8) (operations : Nat) : World :=
  { w with
    disk := { w.disk with files := w.disk.files.set key bytes, temps := w.disk.temps.erase key }
    operations := operations }

theorem rename_meets : Meets (rename host key bytes) w (fun _ w' => ∃ n, w' = renamed w key bytes n)
      (fun e w' => Before e ∧ Later w w') (fun w' => ∃ n, w' = renamed w key bytes n) := by
  refine Meets.bind' ⟨by simp [touch], ?_, ?_⟩
  · intro _ _
    exact Meets.step' ⟨_, rfl⟩ ⟨_, rfl⟩
  · exact (touch_before (by decide) trivial : Quiet _ w (fun _ => True) Before).error

theorem finish_changes {D : World → Prop} {C : World → World → Prop} {bytes : List UInt8}
    (hC : ∀ n, C w (renamed w key bytes n)) :
    Changes (rename host key bytes >>= fun _ => touch host .published) w D C := by
  have hcrash : ∀ t, (∃ n, t = renamed w key bytes n) → Later w t ∨ C w t := by
    intro t ht
    obtain ⟨n, rfl⟩ := ht
    exact .inr (hC n)
  refine Meets.seq ((rename_meets bytes).mono (fun _ _ h => h) (fun _ _ h => .inl h) hcrash) ?_
  intro _ w₁ hw₁
  obtain ⟨n, rfl⟩ := hw₁
  refine ⟨by simp [touch], fun _ _ => .inr (hC _), ?_⟩
  intro e he
  refine .inr ⟨?_, hC _⟩
  simp only [touch] at he
  split at he
  · cases he
    rfl
  · cases he

/-- The last look at the approval, the rename and the flush. -/
def finish (host : Host) (key : Key) (record : StoredPlan) : Op Unit := do
  if requiresLiveApproval record.status then
    match record.approval with
    | none => Prog.fail .stale
    | some approval => do
      let time ← now host
      liftStale (approval.validateAgainstAt host.env record.plan time)
  else Prog.pure ()
  rename host key record.bytes
  touch host .published

theorem liftStale_quiet {α : Type} (result : Result α) :
    Quiet (liftStale result) w (fun a => result = .ok a) Before := by
  cases result with
  | ok a => exact Quiet.pure rfl
  | error e => exact Quiet.fail (fun heq => nomatch heq)

/-- What has been found before the last look at the approval. -/
structure Ready (key : Key) (expected : Option StoredPlan) (record : StoredPlan) (w : World) :
    Prop where
  before : w.disk.files.get key = expected.map StoredPlan.bytes
  size : record.bytes.length ≤ maxRecordBytes
  current : expected = none ∨ requiresLiveApproval record.status = true → Current w key
  own : key.1 ∈ w.disk.dirs

theorem Ready.published {w₁ : World} (h : Ready key expected record w) (hl : Later w w₁)
    (hlive : requiresLiveApproval record.status = true → ∃ a n, record.approval = some a ∧
      w.ticks ≤ n ∧ n ≤ w₁.ticks ∧
        a.validateAgainstAt host.env record.plan (host.clock n) = .ok ())
    (n : Nat) : Published host key expected record w (renamed w₁ key record.bytes n) where
  before := h.before
  files := congrArg (fun files => OrderedMap.set files key record.bytes) hl.files
  size := h.size
  current := h.current
  live := hlive
  own := hl.dirs _ h.own
  dirs := hl.dirs
  safe := fun _ hs => hl.safe hs
  ticks := hl.ticks

theorem now_meets : Meets (now host) w
    (fun time w' => (time = host.clock w.ticks ∧ w.ticks ≤ w'.ticks) ∧ Later w w')
    (fun e w' => Before e ∧ Later w w') (Later w) where
  states := by simp [now]
  ok := by
    intro time ht
    cases ht
    exact ⟨⟨rfl, Nat.le_succ _⟩, .of_same rfl rfl (Nat.le_succ _)⟩
  error := by
    intro e he
    cases he

theorem finish_published (h : Ready key expected record w) :
    Changes (finish host key record) w (fun _ => False) (Published host key expected record) := by
  -- the change is told from here, where the clock has not been read
  suffices hfixed : Changes (finish host key record) w (fun _ => False)
      (fun _ w' => Published host key expected record w w') from
    hfixed.mono (fun hno => hno) (fun _ hc => hc)
  have htold : Told (fun _ => False) (fun _ w' => Published host key expected record w w') :=
    ⟨fun _ hno => hno, fun _ hc => hc⟩
  unfold finish
  cases hlive : requiresLiveApproval record.status with
  | false =>
    refine Changes.bind (fun _ => True) htold (Quiet.pure trivial) fun _ w₁ _ hl => ?_
    refine finish_changes fun n => h.published hl (fun hyes => ?_) n
    rw [hlive] at hyes
    cases hyes
  | true =>
    cases happroval : record.approval with
    | none =>
      refine Changes.bind (fun _ => False) htold (Quiet.fail (fun heq => nomatch heq)) ?_
      exact fun _ _ hno => hno.elim
    | some a =>
      refine Changes.seq (fun time w' => time = host.clock w.ticks ∧ w.ticks ≤ w'.ticks)
        htold now_meets fun time w₁ htime hl₁ => ?_
      refine Changes.bind _ htold (liftStale_quiet _) fun _ w₂ hvalid hl₂ => ?_
      refine finish_changes fun n => h.published (hl₁.trans hl₂) (fun _ => ?_) n
      exact ⟨a, w.ticks, happroval, Nat.le_refl _, (hl₁.trans hl₂).ticks, htime.1 ▸ hvalid⟩

theorem publish_changes (hclock : Monotone host.clock)
    (hjson : ∀ r : StoredPlan, host.env.parseJson r.bytes = some r.value) (hs : Sound host w)
    (hsafe : safeId key.1 = true) :
    Changes (publish host key expected record) w (fun _ => False)
      (Published host key expected record) := by
  have htold : Told (fun _ => False) (Published host key expected record) :=
    ⟨fun _ hno => hno, Published.after⟩
  refine Changes.seq (fun _ w' => key.1 ∈ w'.disk.dirs) htold
    (ensureDirectory_quiet hsafe) fun _ w₁ hown hl₁ => ?_
  refine Changes.bind (fun _ => record.bytes.length ≤ maxRecordBytes) htold
    (Quiet.require of_decide_eq_true (fun _ heq => nomatch heq)) fun _ w₂ hsize hl₂ => ?_
  have hs₂ := hs.later hclock (hl₁.trans hl₂)
  refine Changes.bind (Found host w₂ key) htold
    ((readAt_quiet hclock hjson hs₂ key).mono (fun _ h => h) (fun _ => fault_before))
    fun before w₃ hbefore hl₃ => ?_
  refine Changes.bind (fun _ => before = expected) htold
    (Quiet.require of_decide_eq_true (fun _ heq => nomatch heq)) fun _ w₄ _ hl₄ => ?_
  refine Changes.bind (fun _ => True) htold (createTemp_quiet _) fun _ w₅ _ hl₅ => ?_
  refine Changes.bind (fun _ => True) htold (touch_before (by decide) trivial)
    fun _ w₆ _ hl₆ => ?_
  have hs₆ := hs₂.later hclock (((hl₃.trans hl₄).trans hl₅).trans hl₆)
  refine Changes.bind (Found host w₆ key) htold
    ((readAt_quiet hclock hjson hs₆ key).mono (fun _ h => h) (fun _ => fault_before))
    fun again w₇ hagain hl₇ => ?_
  refine Changes.bind (fun _ => again = expected) htold
    (Quiet.require of_decide_eq_true (fun _ heq => nomatch heq)) fun _ w₈ hsame hl₈ => ?_
  subst hsame
  have hlast := ((((hl₃.trans hl₄).trans hl₅).trans hl₆).trans hl₇).trans hl₈
  have hready : (again = none ∨ requiresLiveApproval record.status = true → Current w₈ key) →
      ∀ w₉, Later w₈ w₉ → Ready key again record w₉ := by
    intro hcurrent w₉ hl₉
    refine ⟨?_, hsize, ?_, ?_⟩
    · rw [((hl₇.trans hl₈).trans hl₉).files]
      exact hagain.1
    · intro hor key' bytes hget
      exact hcurrent hor (hl₉.files ▸ hget)
    · exact ((hl₂.trans hlast).trans hl₉).dirs _ hown
  dsimp only
  split
  · refine Changes.bind _ htold
      (checkCurrentRevision_quiet hclock hjson (hs₂.later hclock hlast) key)
      fun _ w₉ hcurrent hl₉ => ?_
    exact finish_published (hready (fun _ => hcurrent) w₉ hl₉)
  · rename_i hno
    refine Changes.bind (fun _ => True) htold (Quiet.pure trivial) fun _ w₉ _ hl₉ => ?_
    refine finish_published (hready (fun hor => absurd ?_ hno) w₉ hl₉)
    rcases hor with rfl | hlive
    · rfl
    · rw [hlive, Bool.or_true]

end publication

/-! ## Operations -/

/-- An operation with its arguments. A plan is made by `from_proposal` only. -/
inductive Call (env : Env) where
  | putProposed (plan : PlanRevision) (accepted : ∃ input, fromProposal env input = .ok plan)
  | activate (approval : PlanApproval) (currentGeneration : UInt64)
  | transition (planId : String) (revision : UInt64) (expectedDigest : String)
      (currentGeneration : UInt64) (next : PlanStatus)
  | resume (approval : PlanApproval) (currentGeneration : UInt64) (given : Option Int)

/-- The revision that an operation is about. -/
def Call.target {env : Env} : Call env → Key
  | .putProposed plan _ => (plan.planId, plan.revision)
  | .activate approval _ => (approval.planId, approval.revision)
  | .transition planId revision _ _ _ => (planId, revision)
  | .resume approval _ _ => (approval.planId, approval.revision)

def Call.run (host : Host) : Call host.env → Op Unit
  | .putProposed plan _ => Coordinator.putProposed host plan
  | .activate approval currentGeneration =>
    Coordinator.activate host approval currentGeneration >>= fun _ => Prog.pure ()
  | .transition planId revision expectedDigest currentGeneration next =>
    Coordinator.transition host planId revision expectedDigest currentGeneration next >>=
      fun _ => Prog.pure ()
  | .resume approval currentGeneration given =>
    Coordinator.resume host approval currentGeneration given >>= fun _ => Prog.pure ()

def StoredPlan.proposed (plan : PlanRevision) : StoredPlan :=
  { plan := plan, status := .proposed, approval := none, approvalHistory := [] }

def StoredPlan.activeBy (record : StoredPlan) (approval : PlanApproval) : StoredPlan :=
  if record.status = .active ∧ record.approval = some approval then record
  else record.approve approval

/-- The record of the revision after the operation has succeeded. -/
def Call.after {env : Env} (call : Call env) (record : Option StoredPlan) : Option StoredPlan :=
  match call with
  | .putProposed plan _ => some (.proposed plan)
  | .activate approval _ => record.map (fun r => r.activeBy approval)
  | .transition _ _ _ _ next => record.map (fun r => { r with status := next })
  | .resume approval _ _ => record.map (fun r => r.activeBy approval)

/-- The approval is new and later than the one it replaces. -/
structure Renewal (env : Env) (record : StoredPlan) (approval : PlanApproval) : Prop where
  unused : approval.approvalId ∉ record.approvalHistory.map PlanApproval.approvalId
  later : ∃ previous s t, record.approval = some previous ∧
    env.parseTime previous.approvedAt = some s ∧ env.parseTime approval.approvedAt = some t ∧ s < t

/-- What an operation may write in the place of a record, with the checks it has made. -/
inductive Change (host : Host) : Call host.env → Option StoredPlan → StoredPlan → Prop where
  | propose {plan : PlanRevision} {accepted : ∃ input, fromProposal host.env input = .ok plan}
      (hinstance : plan.instanceId = host.instanceId)
      (hworkspace : plan.workspaceId = host.workspaceId) :
      Change host (.putProposed plan accepted) none (.proposed plan)
  | activate {approval : PlanApproval} {currentGeneration : UInt64} {record : StoredPlan}
      (hstatus : record.status = .proposed)
      (hgeneration : approval.revocationGeneration = currentGeneration) :
      Change host (.activate approval currentGeneration) (some record) (record.approve approval)
  | transition {planId : String} {revision : UInt64} {expectedDigest : String}
      {currentGeneration : UInt64} {next : PlanStatus} {record : StoredPlan}
      (hallowed : record.status.allowsTransition next = true) (hnext : next ≠ .active) :
      Change host (.transition planId revision expectedDigest currentGeneration next) (some record)
        { record with status := next }
  | resume {approval : PlanApproval} {currentGeneration : UInt64} {given : Option Int}
      {record : StoredPlan} (hstatus : record.status = .paused)
      (hgeneration : approval.revocationGeneration = currentGeneration)
      (hrenewal : Renewal host.env record approval) :
      Change host (.resume approval currentGeneration given) (some record) (record.approve approval)

variable {old : Option StoredPlan}

theorem Change.after {call : Call host.env}
    {new : StoredPlan} (h : Change host call old new) : call.after old = some new := by
  cases h with
  | propose _ _ => rfl
  | activate hstatus _ => simp [Call.after, StoredPlan.activeBy, hstatus]
  | transition _ _ => rfl
  | resume hstatus _ _ => simp [Call.after, StoredPlan.activeBy, hstatus]

/-- The operation found a good record, changed it and published the result. -/
structure Committed (host : Host) (call : Call host.env) (old : Option StoredPlan)
    (new : StoredPlan) (w w' : World) : Prop where
  safe : safeId call.target.1 = true
  change : Change host call old new
  published : Published host call.target old new w w'
  good : ∀ r, old = some r → Good host call.target (host.clock w'.ticks) r

/-- The revision is as the operation would leave it. -/
def Done (host : Host) (call : Call host.env) (w : World) : Prop :=
  ∃ r time, Stored w call.target r ∧ Good host call.target time r ∧ call.after (some r) = some r

theorem call_told (host : Host) (call : Call host.env) :
    Told (Done host call) (fun w w' => ∃ old new, Committed host call old new w w') where
  done := by
    intro w w₁ hl h
    obtain ⟨r, time, hstored, hgood, hafter⟩ := h
    exact ⟨r, time, (congrArg (fun files => OrderedMap.get files call.target)
      hl.files.symm).trans hstored, hgood, hafter⟩
  change := by
    intro w w₁ w' hl h
    obtain ⟨old, new, hc⟩ := h
    exact ⟨old, new, hc.safe, hc.change, hc.published.after hl, hc.good⟩

variable {r : StoredPlan} {time : Int}

theorem Good.unapproved_of_proposed (h : Good host key time r)
    (hstatus : r.status = .proposed) : r.approval = none ∧ r.approvalHistory = [] := by
  cases happroval : r.approval with
  | none => exact ⟨rfl, (h.unapproved happroval).1⟩
  | some a => exact absurd hstatus (h.approved a happroval).1

theorem Good.eq_proposed {plan : PlanRevision} (h : Good host key time r)
    (hstatus : r.status = .proposed) (hplan : r.plan = plan) : r = .proposed plan := by
  obtain ⟨happroval, hhistory⟩ := h.unapproved_of_proposed hstatus
  cases r
  simp_all [StoredPlan.proposed]

section operations
variable {host : Host} {w : World} (hclock : Monotone host.clock)
  (hjson : ∀ r : StoredPlan, host.env.parseJson r.bytes = some r.value)
include hclock hjson

variable {approval : PlanApproval}

theorem commit_changes (call : Call host.env) {new : StoredPlan} (hs : Sound host w)
    (hsafe : safeId call.target.1 = true) (hchange : Change host call old new)
    (hgood : ∀ r, old = some r → Good host call.target (host.clock w.ticks) r) :
    Changes (publish host call.target old new) w (Done host call)
      (fun w w' => ∃ old new, Committed host call old new w w') := by
  refine (publish_changes hclock hjson hs hsafe).mono (fun hno => hno.elim) fun w' hp => ?_
  refine ⟨old, new, hsafe, hchange, hp, fun r hr => ?_⟩
  exact (hgood r hr).later (hclock hp.ticks)

variable {call : Call host.env}

theorem enter_changes {α : Type} {rest : Unit → Op α} (hs : Sound host w)
    (hrest : ∀ w', Sound host w' → Changes (rest ()) w' (Done host call)
      (fun w w' => ∃ old new, Committed host call old new w w')) :
    Changes (enter host >>= rest) w (Done host call)
      (fun w w' => ∃ old new, Committed host call old new w w') :=
  Changes.bind (fun _ => True) (call_told host call)
    ((enter_quiet hclock hjson hs).mono (fun _ h => h) (fun _ => fault_before))
    (fun _ w' _ hl => hrest w' (hs.later hclock hl))

theorem putProposed_changes (plan : PlanRevision)
    (haccepted : ∃ input, fromProposal host.env input = .ok plan) (hs : Sound host w) :
    Changes (putProposed host plan) w (Done host (.putProposed plan haccepted))
      (fun w w' => ∃ old new, Committed host (.putProposed plan haccepted) old new w w') := by
  have htold := call_told host (.putProposed plan haccepted)
  refine enter_changes hclock hjson hs fun w₁ hs₁ => ?_
  refine Changes.bind (fun _ => True) htold ?_ fun _ w₂ _ hl₂ => ?_
  · cases hvalid : plan.validate host.env with
    | ok _ => exact Quiet.pure trivial
    | error e => exact Quiet.fail (fun heq => nomatch heq)
  refine Changes.bind (fun _ => plan.instanceId = host.instanceId ∧
    plan.workspaceId = host.workspaceId) htold
    (Quiet.require (fun h => by simpa using h) (fun _ heq => nomatch heq)) fun _ w₃ hid hl₃ => ?_
  refine Changes.bind (fun _ => safeId plan.planId = true) htold
    (Quiet.require (fun h => h) (fun _ heq => nomatch heq)) fun _ w₄ hsafe hl₄ => ?_
  have hs₄ := hs₁.later hclock ((hl₂.trans hl₃).trans hl₄)
  refine Changes.bind (Everything host w₄) htold
    ((readAll_quiet hclock hjson hs₄).mono (fun _ h => h) (fun _ => fault_before))
    fun records w₅ hrecords hl₅ => ?_
  dsimp only
  split
  · rename_i current hfind
    split
    · rename_i hsame
      refine Changes.quiet (touch_before (by decide) trivial : Quiet _ w₅ (fun _ => True) Before) ?_
      intro _ _
      obtain ⟨hmem, hrevision⟩ : current ∈ records ∧ current.plan.revision = plan.revision :=
        ⟨mem_of_mem_filter (mem_of_find?_eq_some hfind),
          by simpa using List.find?_some hfind⟩
      simp only [Bool.and_eq_true, decide_eq_true_eq] at hsame
      obtain ⟨key, hstored, hgood⟩ := hrecords.stored current hmem
      have hkey : key = (plan.planId, plan.revision) :=
        Prod.ext (hgood.planId.symm.trans (congrArg (fun p => p.planId) hsame.1))
          (hgood.revision.symm.trans hrevision)
      subst hkey
      refine ⟨current, _, ?_, hgood, congrArg some ?_⟩
      · exact (congrArg (fun files => OrderedMap.get files (plan.planId, plan.revision))
          hl₅.files).trans hstored
      · exact (hgood.eq_proposed hsame.2 hsame.1).symm
    · exact Changes.fail (fun heq => nomatch heq)
  · refine Changes.bind (fun _ => True) htold
      (Quiet.require (fun _ => trivial) (fun _ heq => nomatch heq)) fun _ w₆ _ hl₆ => ?_
    exact commit_changes hclock hjson (.putProposed plan haccepted)
      (hs₄.later hclock (hl₅.trans hl₆)) hsafe (.propose hid.1 hid.2) (fun r hr => nomatch hr)

theorem onRecord_changes {α : Type} {rest : Option StoredPlan → Op α}
    (hs : Sound host w) (hnone : rest none = Prog.fail .stale)
    (hsome : ∀ r w', Sound host w' → Stored w' key r → Good host key (host.clock w'.ticks) r →
      Changes (rest (some r)) w' (Done host call)
        (fun w w' => ∃ old new, Committed host call old new w w')) :
    Changes (readAt host key >>= rest) w (Done host call)
      (fun w w' => ∃ old new, Committed host call old new w w') := by
  refine Changes.bind (Found host w key) (call_told host call)
    ((readAt_quiet hclock hjson hs key).mono (fun _ h => h) (fun _ => fault_before)) ?_
  intro found w₁ hfound hl
  cases found with
  | none =>
    rw [hnone]
    exact Changes.fail (fun heq => nomatch heq)
  | some r =>
    refine hsome r w₁ (hs.later hclock hl) ?_ ((hfound.2 r rfl).later (hclock hl.ticks))
    exact (congrArg (fun files => OrderedMap.get files key) hl.files).trans hfound.1

omit hclock hjson in
theorem confirmActive_changes {record : StoredPlan} {currentGeneration : UInt64} {clock : Op Int}
    (hread : ∀ w', Quiet clock w' (fun _ => True) Before) (hdone : Done host call w) :
    Changes (confirmActive host record approval currentGeneration clock) w (Done host call)
      (fun w w' => ∃ old new, Committed host call old new w w') := by
  refine Changes.quiet (?_ : Quiet _ w (fun _ => True) Before) (fun _ _ => hdone)
  refine Quiet.seq (fun _ => True)
    (Quiet.require (fun _ => trivial) (fun _ heq => nomatch heq)) fun _ w₁ _ _ => ?_
  refine (hread w₁).bind fun _ w₂ _ _ => ?_
  exact (liftStale_quiet _).bind fun _ _ _ _ => Quiet.pure trivial

omit hclock hjson in
theorem done_of_activeBy {record : StoredPlan} (hstored : Stored w call.target record)
    (hgood : Good host call.target time record)
    (hafter : call.after (some record) = some (record.activeBy approval))
    (hactive : record.status = .active ∧ record.approval = some approval) : Done host call w := by
  refine ⟨record, time, hstored, hgood, hafter.trans ?_⟩
  rw [StoredPlan.activeBy, if_pos hactive]

omit hclock hjson in
theorem safe_quiet (id : String) :
    Quiet (require (safeId id) (.invalid "plan id")) w (fun _ => safeId id = true) Before :=
  Quiet.require (fun h => h) (fun _ heq => nomatch heq)

variable (approval : PlanApproval) (currentGeneration : UInt64)

theorem activate_changes (hs : Sound host w) : Changes (activate host approval currentGeneration) w
      (Done host (.activate approval currentGeneration))
      (fun w w' => ∃ old new, Committed host (.activate approval currentGeneration) old new w w') := by
  have htold := call_told host (.activate approval currentGeneration)
  refine enter_changes hclock hjson hs fun w₁ hs₁ => ?_
  refine Changes.bind _ htold (safe_quiet _) fun _ w₂ hsafe hl₂ => ?_
  have hs₂ := hs₁.later hclock hl₂
  refine Changes.bind _ htold (checkCurrentRevision_quiet hclock hjson hs₂ _) fun _ w₃ _ hl₃ => ?_
  refine onRecord_changes hclock hjson (hs₂.later hclock hl₃) rfl fun r w₄ hs₄ hstored hgood => ?_
  dsimp only
  split
  · rename_i hactive
    refine confirmActive_changes (fun w' => Quiet.now fun _ _ => trivial)
      (done_of_activeBy hstored hgood rfl ?_)
    simpa using hactive
  · refine Changes.bind (fun _ => r.status = .proposed) htold
      (Quiet.require (fun h => by simp_all) (fun _ heq => nomatch heq)) fun _ w₅ hstatus hl₅ => ?_
    refine Changes.bind (fun _ => True) htold (Quiet.now fun _ _ => trivial) fun time w₆ _ hl₆ => ?_
    refine Changes.bind _ htold (liftStale_quiet _) fun _ w₇ hactivate hl₇ => ?_
    have hl := (hl₅.trans hl₆).trans hl₇
    refine (commit_changes hclock hjson (.activate approval currentGeneration)
      (hs₄.later hclock hl) hsafe (.activate hstatus ?_) ?_).map _
    · have hrefused := refuseIf_ok.mp (seq_eq_ok.mp hactivate).1
      simp_all
    · intro r' hr'
      cases hr'
      exact hgood.later (hclock hl.ticks)

theorem checkLive_quiet (hs : Sound host w) (key : Key) (record : StoredPlan)
    (currentGeneration : UInt64) :
    Quiet (checkLive host key record currentGeneration) w (fun _ => True) Before := by
  refine (checkCurrentRevision_quiet hclock hjson hs key).bind fun _ w₁ _ _ => ?_
  cases record.approval with
  | none => exact Quiet.fail (fun heq => nomatch heq)
  | some approval =>
    refine Quiet.seq (fun _ => True)
      (Quiet.require (fun _ => trivial) (fun _ heq => nomatch heq)) fun _ w₂ _ _ => ?_
    refine Quiet.seq (fun _ => True) (Quiet.now fun _ _ => trivial) fun time w₃ _ _ => ?_
    exact (liftStale_quiet _).mono (fun _ _ => trivial) (fun _ h => h)

theorem transition_changes (planId : String) (revision : UInt64) (expectedDigest : String)
    (currentGeneration : UInt64) (next : PlanStatus) (hs : Sound host w) :
    Changes (transition host planId revision expectedDigest currentGeneration next) w
      (Done host (.transition planId revision expectedDigest currentGeneration next))
      (fun w w' => ∃ old new, Committed host
        (.transition planId revision expectedDigest currentGeneration next) old new w w') := by
  have htold := call_told host (.transition planId revision expectedDigest currentGeneration next)
  refine enter_changes hclock hjson hs fun w₁ hs₁ => ?_
  refine Changes.bind _ htold (safe_quiet _) fun _ w₂ hsafe hl₂ => ?_
  refine onRecord_changes hclock hjson (hs₁.later hclock hl₂) rfl fun r w₃ hs₃ hstored hgood => ?_
  dsimp only
  refine Changes.bind (fun _ => next ≠ .active) htold
    (Quiet.require (fun h => by simp_all) (fun _ heq => nomatch heq)) fun _ w₄ hnext hl₄ => ?_
  have hs₄ := hs₃.later hclock hl₄
  -- both ways of the check of a live approval come here
  have hrest : ∀ w₅, Later w₄ w₅ → Changes (if r.status = next then Prog.pure r
      else do
        require (r.status.allowsTransition next) .stale
        publish host (planId, revision) (some r) { r with status := next }
        Prog.pure { r with status := next }) w₅
      (Done host (.transition planId revision expectedDigest currentGeneration next))
      (fun w w' => ∃ old new, Committed host
        (.transition planId revision expectedDigest currentGeneration next) old new w w') := by
    intro w₅ hl₅
    have hl := hl₄.trans hl₅
    split
    · rename_i hsame
      refine Changes.quiet (Quiet.pure trivial : Quiet _ w₅ (fun _ => True) Before) fun _ _ => ?_
      refine ⟨r, _, ?_, hgood, ?_⟩
      · exact (congrArg (fun files => OrderedMap.get files (planId, revision)) hl.files).trans hstored
      · rw [← hsame]
        rfl
    · refine Changes.bind (fun _ => r.status.allowsTransition next = true) htold
        (Quiet.require (fun h => h) (fun _ heq => nomatch heq)) fun _ w₆ hallowed hl₆ => ?_
      refine (commit_changes hclock hjson
        (.transition planId revision expectedDigest currentGeneration next)
        (hs₃.later hclock (hl.trans hl₆)) hsafe (.transition hallowed hnext) ?_).map _
      intro r' hr'
      cases hr'
      exact hgood.later (hclock (hl.trans hl₆).ticks)
  split
  · exact Changes.bind _ htold (checkLive_quiet hclock hjson hs₄ _ r currentGeneration)
      (fun _ w₅ _ hl₅ => hrest w₅ hl₅)
  · exact Changes.bind (fun _ => True) htold (Quiet.pure trivial) (fun _ w₅ _ hl₅ => hrest w₅ hl₅)

omit hclock hjson in
theorem checkRenewal_quiet (record : StoredPlan) (approval : PlanApproval) :
    Quiet (checkRenewal host record approval) w
      (fun _ => Renewal host.env record approval) Before := by
  unfold checkRenewal
  cases hprevious : record.approval with
  | none => exact Quiet.fail (fun heq => nomatch heq)
  | some previous =>
    dsimp only
    split
    · rename_i s t hs ht
      refine Quiet.require (fun h => ?_) (fun _ heq => nomatch heq)
      simp only [Bool.not_eq_true', Bool.or_eq_false_iff, any_eq_false, decide_eq_true_eq,
        decide_eq_false_iff_not, Int.not_le] at h
      refine ⟨?_, previous, s, t, hprevious, hs, ht, h.2⟩
      intro hmem
      obtain ⟨prior, hprior, heq⟩ := mem_map.mp hmem
      exact h.1 prior hprior heq
    · exact Quiet.fail (fun heq => nomatch heq)

theorem resume_changes (given : Option Int) (hs : Sound host w) :
    Changes (resume host approval currentGeneration given) w
      (Done host (.resume approval currentGeneration given))
      (fun w w' => ∃ old new,
        Committed host (.resume approval currentGeneration given) old new w w') := by
  have htold := call_told host (.resume approval currentGeneration given)
  refine enter_changes hclock hjson hs fun w₁ hs₁ => ?_
  refine Changes.bind _ htold (safe_quiet _) fun _ w₂ hsafe hl₂ => ?_
  have hs₂ := hs₁.later hclock hl₂
  refine Changes.bind _ htold (checkCurrentRevision_quiet hclock hjson hs₂ _) fun _ w₃ _ hl₃ => ?_
  refine onRecord_changes hclock hjson (hs₂.later hclock hl₃) rfl fun r w₄ hs₄ hstored hgood => ?_
  dsimp only
  refine Changes.bind (fun _ => True) htold ?_ fun time w₅ _ hl₅ => ?_
  · cases given with
    | some time => exact Quiet.pure trivial
    | none => exact Quiet.now fun _ _ => trivial
  split
  · rename_i hactive
    refine confirmActive_changes (fun w' => Quiet.pure trivial)
      (done_of_activeBy ?_ hgood rfl (by simpa using hactive))
    exact (congrArg (fun files => OrderedMap.get files (approval.planId, approval.revision))
      hl₅.files).trans hstored
  · refine Changes.bind _ htold (liftStale_quiet _) fun _ w₆ hresume hl₆ => ?_
    refine Changes.bind _ htold (checkRenewal_quiet r approval) fun _ w₇ hrenewal hl₇ => ?_
    have hl := (hl₅.trans hl₆).trans hl₇
    have hrefused := refuseIf_ok.mp (seq_eq_ok.mp hresume).1
    simp only [Bool.or_eq_false_iff, decide_eq_false_iff_not, ne_eq, Decidable.not_not] at hrefused
    refine (commit_changes hclock hjson (.resume approval currentGeneration given)
      (hs₄.later hclock hl) hsafe (.resume hrefused.1 hrefused.2 hrenewal) ?_).map _
    intro r' hr'
    cases hr'
    exact hgood.later (hclock hl.ticks)

theorem call_changes (call : Call host.env) (hs : Sound host w) :
    Changes (call.run host) w (Done host call)
      (fun w w' => ∃ old new, Committed host call old new w w') := by
  cases call with
  | putProposed plan haccepted => exact putProposed_changes hclock hjson plan haccepted hs
  | activate approval generation =>
    exact (activate_changes hclock hjson approval generation hs).map _
  | transition planId revision digest generation next =>
    exact (transition_changes hclock hjson planId revision digest generation next hs).map _
  | resume approval generation given =>
    exact (resume_changes hclock hjson approval generation given hs).map _

end operations

end Orkworksd.Coordinator
