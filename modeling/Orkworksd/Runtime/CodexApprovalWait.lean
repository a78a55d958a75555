import Orkworksd.Runtime.CodexApprovalClear

/- An approval wait is displayed late and dropped reluctantly.

   `apply_wait` is the inversion everything rests on: it lists what one call can do
   to the open wait, and the four clauses of the main result read it off. Between
   two calls the wait is the same one (`shown` apart); it goes through a reset, an
   acknowledged clear or a retirement of its own candidate in a reducer that was
   and stayed unlocked.

   Main result: `approval_waits_conservative`. -/
namespace Orkworksd.CodexApproval
open Lib ApprovalReducer List

variable {r : ApprovalReducer} {E : Evidence}

variable {c : CandidateId}

namespace ApprovalReducer

/-! ## What the private methods do to the wait -/

section frame
variable (r : ApprovalReducer)

@[simp] theorem advanceClock_wait (now : Instant) : (r.advanceClock now).1.wait = r.wait := by
  unfold advanceClock
  split <;> rfl

@[simp] theorem advanceClock_nextCandidate (now : Instant) :
    (r.advanceClock now).1.nextCandidate = r.nextCandidate := by
  unfold advanceClock
  split <;> rfl

variable (toolId : Option String)

variable (hasPre completed : Bool)

@[simp] theorem addRecord_wait : (r.addRecord toolId hasPre completed).1.wait = r.wait := by
  unfold addRecord
  split <;> rfl

@[simp] theorem addRecord_fence : (r.addRecord toolId hasPre completed).1.fence = r.fence := by
  unfold addRecord
  split <;> rfl

theorem pre_frame : (r.pre toolId).wait = r.wait ∧
    (r.pre toolId).fence = r.fence ∧ (r.pre toolId).nextCandidate = r.nextCandidate := by
  unfold pre
  simp only
  split
  · simp
  · simp

theorem permissionRecord_frame : (r.permissionRecord toolId).1.wait = r.wait ∧
      (r.permissionRecord toolId).1.fence = r.fence := by
  unfold permissionRecord
  split
  · split
    · simp
    · split <;> simp
  · split
    · simp
    · split <;> simp

variable (index : Option Nat) (c : Candidate)

@[simp] theorem setCandidate_wait : (r.setCandidate index c).wait = r.wait := by
  cases index <;> rfl

@[simp] theorem setCandidate_fence : (r.setCandidate index c).fence = r.fence := by
  cases index <;> rfl

@[simp] theorem setCandidate_nextCandidate :
    (r.setCandidate index c).nextCandidate = r.nextCandidate := by
  cases index <;> rfl

theorem observePending_frame (previous : Option NativeStatus) (startedAt : Instant) :
    (r.observePending previous startedAt).wait = r.wait ∧
      (r.observePending previous startedAt).fence = r.fence ∧
      (r.observePending previous startedAt).nextCandidate = r.nextCandidate := by
  unfold observePending
  split
  · simp
  · simp only
    split
    · split
      · exact ⟨rfl, rfl, rfl⟩
      · split <;> simp
    · simp

theorem displayDue_frame (now : Instant) : (r.displayDue now).1.wait = r.wait ∧
    (r.displayDue now).1.fence = r.fence ∧
    (r.displayDue now).1.nextCandidate = r.nextCandidate := by
  obtain heq | ⟨c, f, heq⟩ := displayDue_cases r now
  · simp [heq]
  · simp [heq]

end frame

section
variable (r : ApprovalReducer)

/-- A permission request leaves an open wait alone; without one it opens the wait
of the next candidate, or none when the ids have run out. -/
theorem openCandidate_wait (index : Option Nat) (now : Instant) :
    (r.openCandidate index now).fence = r.fence ∧
    ((r.openCandidate index now).wait = r.wait ∧
        r.nextCandidate ≤ (r.openCandidate index now).nextCandidate ∨
      r.wait = none ∧ (r.openCandidate index now).wait = some ⟨r.nextCandidate + 1, now, false⟩ ∧
        (r.openCandidate index now).nextCandidate = r.nextCandidate + 1) := by
  unfold openCandidate
  simp only
  split
  · simp
  · split
    · rename_i hnone
      have hwait : r.wait = none := by simpa using hnone
      refine ⟨by simp, .inr ⟨hwait, ?_, ?_⟩⟩ <;> simp
    · refine ⟨by simp, .inl ⟨?_, ?_⟩⟩ <;> simp

theorem permission_wait (toolId : Option String) (now : Instant) :
    (r.permission toolId now).fence = r.fence ∧
    ((r.permission toolId now).wait = r.wait ∧
        r.nextCandidate ≤ (r.permission toolId now).nextCandidate ∨
      r.wait = none ∧ (r.permission toolId now).wait = some ⟨r.nextCandidate + 1, now, false⟩ ∧
        (r.permission toolId now).nextCandidate = r.nextCandidate + 1) := by
  obtain ⟨hwait, hfence⟩ := permissionRecord_frame r toolId
  have hnext := (permissionRecord_cases r toolId).1
  unfold permission
  simp only
  split
  · simp [hwait, hfence, hnext]
  · have hopen := openCandidate_wait (r.permissionRecord toolId).1
      (r.permissionRecord toolId).2 now
    rw [hwait, hfence, hnext] at hopen
    exact hopen

/-- The candidate of the open wait was retired before the wait was shown. -/
structure Retires (r : ApprovalReducer) (record : Record) (wait : Wait) : Prop where
  unlocked : r.locked = false
  recorded : record ∈ r.records
  unshown : wait.shown = false
  exact_candidate : ∃ c, record.candidate = some c ∧ c.id = wait.candidate ∧
    c.eligible = true ∧ c.retired = false

theorem retire_wait (index : Nat) :
    (r.retire index).1.fence = r.fence ∧ (r.retire index).1.nextCandidate = r.nextCandidate ∧
    (r.retire index).1.locked = r.locked ∧
    ((r.retire index).1.wait = r.wait ∨
      ∃ record wait, r.records[index]? = some record ∧ r.wait = some wait ∧
        Retires r record wait ∧ (r.retire index).1.wait = none ∧ (r.retire index).2 = none) := by
  unfold retire
  split
  · exact ⟨rfl, rfl, rfl, .inl rfl⟩
  · rename_i c hc
    obtain ⟨record, hrec, hcand⟩ := Option.bind_eq_some_iff.mp hc
    split
    · exact ⟨rfl, rfl, rfl, .inl rfl⟩
    · rename_i hretired
      simp only
      split
      · exact ⟨rfl, rfl, rfl, .inl rfl⟩
      · rename_i hgo
        split
        · exact ⟨rfl, rfl, rfl, .inl rfl⟩
        · rename_i wait hwait
          split
          · exact ⟨rfl, rfl, rfl, .inl rfl⟩
          · rename_i hsame
            split
            · rename_i hshown
              have hopen : r.locked = false ∧ c.eligible = true := by
                simpa [setCandidate] using hgo
              refine ⟨rfl, rfl, rfl, .inr ⟨record, wait, hrec, hwait, ?_, rfl, rfl⟩⟩
              refine ⟨hopen.1, mem_of_getElem? hrec, by simpa using hshown, c, hcand, ?_,
                hopen.2, by simpa using hretired⟩
              have hsame' : wait.candidate = c.id := by simpa using hsame
              exact hsame'.symm
            · exact ⟨rfl, rfl, rfl, .inl rfl⟩

/-- The record a completion resolves is the one of the tool id, in the reducer the
completion found. -/
theorem post_wait (toolId : Option String) :
    (r.post toolId).1.fence = r.fence ∧ (r.post toolId).1.nextCandidate = r.nextCandidate ∧
    ((r.post toolId).1.wait = r.wait ∨
      ∃ id record wait, toolId = some id ∧ id ≠ "" ∧ record.toolId = some id ∧
        r.wait = some wait ∧ Retires r record wait ∧ (r.post toolId).1.wait = none ∧
        (r.post toolId).1.locked = false) := by
  unfold post
  split
  · simp
  · rename_i id hid
    obtain ⟨hsome, hne⟩ := Option.filter_eq_some_iff.mp hid
    split
    · simp
    · rename_i index hfind
      split
      · simp
      · simp only
        split
        · exact ⟨rfl, rfl, .inl rfl⟩
        · obtain ⟨hfence, hnext, hlocked, hwait⟩ := retire_wait (r.completeRecord index) index
          refine ⟨hfence, hnext, ?_⟩
          rcases hwait with hkept | ⟨record, wait, hrec, hw, hretires, hnone, -⟩
          · exact .inl hkept
          · -- the completed record is the one found, with `completed` set
            obtain ⟨old, hold, htool⟩ := find_toolId hfind
            simp only [completeRecord, List.getElem?_modify, hold, if_true, Option.map_eq_map,
              Option.map_some, Option.some.injEq] at hrec
            subst hrec
            refine .inr ⟨id, old, wait, hsome, ?_, htool, hw, ?_, hnone, ?_⟩
            · intro hempty
              subst hempty
              simp at hne
            · exact ⟨hretires.unlocked, mem_of_getElem? hold, hretires.unshown,
                hretires.exact_candidate⟩
            · rw [hlocked]
              exact hretires.unlocked

theorem observeActive_wait (previous : Option NativeStatus) :
    (r.observeActive previous).1.fence = r.fence ∧
    (r.observeActive previous).1.nextCandidate = r.nextCandidate ∧
    ((r.observeActive previous).1.wait = r.wait ∨
      ∃ record wait, previous = some .approvalPending ∧ r.wait = some wait ∧
        Retires r record wait ∧ record.candidate.any (·.sawPendingEdge) = true ∧
        (r.observeActive previous).1.wait = none ∧ (r.observeActive previous).1.locked = false) := by
  unfold observeActive
  split
  · rename_i hedge
    have hprevious : previous = some .approvalPending := by
      simp only [Bool.and_eq_true, beq_iff_eq] at hedge
      exact hedge.2
    split
    · split
      · rename_i index _ hsaw
        obtain ⟨hfence, hnext, hlocked, hwait⟩ := retire_wait r index
        refine ⟨hfence, hnext, ?_⟩
        rcases hwait with hkept | ⟨record, wait, hrec, hw, hretires, hnone, -⟩
        · exact .inl hkept
        · refine .inr ⟨record, wait, hprevious, hw, hretires, ?_, hnone, ?_⟩
          · simpa [sawPending, hrec] using hsaw
          · rw [hlocked]
            exact hretires.unlocked
      · exact ⟨rfl, rfl, .inl rfl⟩
    · exact ⟨rfl, rfl, .inl rfl⟩
  · exact ⟨rfl, rfl, .inl rfl⟩

theorem observed_wait (previous : Option NativeStatus)
    (status : NativeStatus) (startedAt now : Instant) :
    (r.observed previous status startedAt now).1.fence = r.fence ∧
    (r.observed previous status startedAt now).1.nextCandidate = r.nextCandidate ∧
    ((r.observed previous status startedAt now).1.wait = r.wait ∨
      ∃ record wait, status = .active ∧ previous = some .approvalPending ∧ r.wait = some wait ∧
        Retires r record wait ∧ record.candidate.any (·.sawPendingEdge) = true ∧
        (r.observed previous status startedAt now).1.wait = none ∧
        (r.observed previous status startedAt now).1.locked = false) := by
  cases status with
  | approvalPending =>
    obtain ⟨hwait, hfence, hnext⟩ := observePending_frame r previous startedAt
    obtain ⟨hwait', hfence', hnext'⟩ := displayDue_frame (r.observePending previous startedAt) now
    exact ⟨hfence'.trans hfence, hnext'.trans hnext, .inl (hwait'.trans hwait)⟩
  | userInputPending =>
    obtain ⟨hwait, hfence, hnext⟩ := displayDue_frame r.lock now
    exact ⟨hfence, hnext, .inl hwait⟩
  | unavailable =>
    obtain ⟨hwait, hfence, hnext⟩ :=
      displayDue_frame { r.lockIf r.wait.isSome with observation := none } now
    exact ⟨hfence.trans (lockIf_fence ..), hnext.trans (lockIf_nextCandidate ..),
      .inl (hwait.trans (lockIf_wait ..))⟩
  | active =>
    obtain ⟨hfence, hnext, hwait⟩ := observeActive_wait r previous
    unfold observed
    simp only
    split
    · rename_i r' effect heq
      rw [heq] at hfence hnext hwait
      refine ⟨hfence, hnext, ?_⟩
      rcases hwait with hkept | ⟨record, wait, hprev, hw, hretires, hsaw, hnone, hlocked⟩
      · exact .inl hkept
      · exact .inr ⟨record, wait, trivial, hprev, hw, hretires, hsaw, hnone, hlocked⟩
    · rename_i r' heq
      rw [heq] at hfence hnext hwait
      obtain ⟨hwait', hfence', hnext'⟩ := displayDue_frame r' now
      refine ⟨hfence'.trans hfence, hnext'.trans hnext, ?_⟩
      rcases hwait with hkept | ⟨record, wait, hprev, hw, hretires, hsaw, hnone, hlocked⟩
      · exact .inl (hwait'.trans hkept)
      · refine .inr ⟨record, wait, trivial, hprev, hw, hretires, hsaw, hwait'.trans hnone, ?_⟩
        obtain heq' | ⟨c, f, heq'⟩ := displayDue_cases r' now
        · rw [heq']
          exact hlocked
        · rw [heq']
          exact hlocked

end

end ApprovalReducer

/-! ## What a call does to the wait -/

/-- The calls that may end the wait: a reset, the acknowledgement of its pending
clear, and the two ways to retire exactly its candidate without any doubt (a lock)
about which request was answered. -/
inductive Releases (r : ApprovalReducer) (wait : Wait) : Input → Prop where
  | reset {a : Input} : a.isReset → Releases r wait a
  | cleared : r.accepts (.clearWait wait.candidate r.fence) = true →
      r.pendingClear = some (.clearWait wait.candidate r.fence) →
      Releases r wait (.acknowledgeClear (.clearWait wait.candidate r.fence))
  | completed {record : Record} {id : String} {now : Instant} : Retires r record wait →
      record.toolId = some id → id ≠ "" → (r.hook .postToolUse (some id) now).1.locked = false →
      Releases r wait (.hook .postToolUse (some id) now)
  | resolved {record : Record} {o : Observation} {startedAt now : Instant} :
      Retires r record wait → record.candidate.any (·.sawPendingEdge) = true →
      r.observation = some o → o.status = .approvalPending →
      (r.observe .active true startedAt now).1.locked = false →
      Releases r wait (.observe .active true startedAt now)

/-- Everything a call can do to the wait and to the counter of candidates. -/
inductive WaitMoves (r : ApprovalReducer) (a : Input) (after : ApprovalReducer) : Prop where
  | kept : after.wait = r.wait → r.nextCandidate ≤ after.nextCandidate → WaitMoves r a after
  | opened {toolId : Option String} {now : Instant} : a = .hook .permissionRequest toolId now →
      r.wait = none → after.wait = some ⟨r.nextCandidate + 1, now, false⟩ →
      after.nextCandidate = r.nextCandidate + 1 → WaitMoves r a after
  | shown {wait : Wait} : r.wait = some wait →
      a = .acknowledgeShow (.showWait wait.candidate r.fence) →
      after.wait = some { wait with shown := true } → after.nextCandidate = r.nextCandidate →
      WaitMoves r a after
  | released {wait : Wait} : r.wait = some wait → Releases r wait a → after.wait = none →
      r.nextCandidate ≤ after.nextCandidate → WaitMoves r a after

section moves
variable {r : ApprovalReducer}

theorem reset_moves {a : Input} (ha : a.isReset) {after : ApprovalReducer}
    (hnone : after.wait = none) (hnext : after.nextCandidate = r.nextCandidate) :
    WaitMoves r a after := by
  cases hwait : r.wait with
  | none => exact .kept (by rw [hnone, hwait]) (by omega)
  | some wait => exact .released hwait (.reset ha) hnone (by omega)

@[simp] theorem hookStart_wait (now : Instant) : (hookStart r now).wait = r.wait := by
  simp [hookStart]

@[simp] theorem hookStart_fence (now : Instant) : (hookStart r now).fence = r.fence := by
  simp [hookStart]

@[simp] theorem postStart_wait (now : Instant) : (postStart r now).wait = r.wait := by
  simp [postStart]

@[simp] theorem postStart_fence (now : Instant) : (postStart r now).fence = r.fence := by
  simp [postStart]

@[simp] theorem postStart_nextCandidate (now : Instant) :
    (postStart r now).nextCandidate = r.nextCandidate := by
  simp [postStart]

theorem postStart_retires {now : Instant} {record : Record} {wait : Wait}
    (h : Retires (postStart r now) record wait) : Retires r record wait := by
  obtain ⟨-, hsame, hl⟩ := lockIf_unlocked h.unlocked
  obtain ⟨heq, hunlocked⟩ := hookStart_unlocked hl
  have hrecorded := h.recorded
  unfold postStart at hrecorded
  rw [hsame, heq] at hrecorded
  exact ⟨hunlocked, hrecorded, h.unshown, h.exact_candidate⟩

theorem hook_moves (event : HookEvent) (toolId : Option String) (now : Instant) :
    WaitMoves r (.hook event toolId now) (r.hook event toolId now).1 := by
  cases event with
  | stop => exact reset_moves (a := .hook .stop toolId now) trivial rfl (lockIf_nextCandidate ..)
  | userPromptSubmit =>
    exact reset_moves (a := .hook .userPromptSubmit toolId now) trivial rfl
      (lockIf_nextCandidate ..)
  | preToolUse =>
    obtain ⟨hwait, -, hnext⟩ := displayDue_frame ((hookStart r now).pre toolId) now
    obtain ⟨hwait', -, hnext'⟩ := pre_frame (hookStart r now) toolId
    refine .kept ((hwait.trans hwait').trans (hookStart_wait now)) ?_
    exact Nat.le_of_eq ((hnext.trans hnext').trans (hookStart_nextCandidate r now)).symm
  | permissionRequest =>
    obtain ⟨hwait, -, hnext⟩ := displayDue_frame ((hookStart r now).permission toolId now) now
    obtain ⟨-, hperm⟩ := permission_wait (hookStart r now) toolId now
    rw [hookStart_wait, hookStart_nextCandidate] at hperm
    rcases hperm with ⟨hwait', hnext'⟩ | ⟨hnone, hopen, hnext'⟩
    · exact .kept (hwait.trans hwait') (hnext'.trans (Nat.le_of_eq hnext.symm))
    · exact .opened rfl hnone (hwait.trans hopen) (hnext.trans hnext')
  | postToolUse =>
    obtain ⟨-, hnext, hpost⟩ := post_wait (postStart r now) toolId
    rw [postStart_wait] at hpost
    rw [postStart_nextCandidate] at hnext
    -- what `post` did to the wait is what the call did: only an effect is issued after it
    have hafter : (r.hook .postToolUse toolId now).1.wait =
          ((postStart r now).post toolId).1.wait ∧
        (r.hook .postToolUse toolId now).1.nextCandidate =
          ((postStart r now).post toolId).1.nextCandidate ∧
        (r.hook .postToolUse toolId now).1.locked = ((postStart r now).post toolId).1.locked := by
      rw [hook_postToolUse]
      split
      · rename_i heq
        simp [heq, issue]
      · rename_i r' heq
        obtain hdue | ⟨c, f, hdue⟩ := displayDue_cases r' now
        · simp [heq, hdue]
        · simp [heq, hdue]
    obtain ⟨hwait, hcount, hlock⟩ := hafter
    have hmono : r.nextCandidate ≤ (r.hook .postToolUse toolId now).1.nextCandidate := by omega
    rcases hpost with hkept | ⟨id, record, wait, rfl, hne, htool, hw, hretires, hnone, hl⟩
    · exact .kept (hwait.trans hkept) hmono
    · exact .released hw (.completed (postStart_retires hretires) htool hne (hlock.trans hl))
        (hwait.trans hnone) hmono

/-- The reducer once an observation has been accepted and retained. -/
def retained (r : ApprovalReducer) (status : NativeStatus) (startedAt now : Instant) :
    ApprovalReducer :=
  { r with
    issued := none
    clock := some now
    lastObservationStart := some startedAt
    observation := some { status := status, startedAt := startedAt } }

/-- The reducer once an observation has been refused. -/
def refused (r : ApprovalReducer) (now : Instant) : ApprovalReducer :=
  { (({ r with issued := none } : ApprovalReducer).advanceClock now).1.lock with
    observation := none }

/-- Every course of `observe`: the observation is refused, the pending clear is
issued again, or the observation is handed on, by a locked reducer if a clear was
pending. -/
theorem observe_cases (r : ApprovalReducer) (status : NativeStatus) (complete : Bool)
    (startedAt now : Instant) :
    r.observe status complete startedAt now = (refused r now).displayDue now ∨
    complete = true ∧
      ((∃ effect, r.pendingClear = some effect ∧ r.locked = false ∧
        r.observe status complete startedAt now =
          (retained r status startedAt now).issue effect) ∨
       r.observe status complete startedAt now = (retained r status startedAt now).lock.observed
          (r.observation.map (·.status)) status startedAt now ∨
       r.pendingClear = none ∧ r.observe status complete startedAt now =
          (retained r status startedAt now).observed (r.observation.map (·.status)) status
            startedAt now) := by
  have hclock : (({ r with issued := none } : ApprovalReducer).advanceClock now).2 = true →
      (({ r with issued := none } : ApprovalReducer).advanceClock now).1 =
        { r with issued := none, clock := some now } := by
    unfold advanceClock
    split <;> simp
  unfold observe
  simp only
  split
  · exact .inl rfl
  · rename_i hgo
    simp only [Bool.or_eq_true, Bool.not_eq_true', not_or, Bool.not_eq_false] at hgo
    obtain ⟨⟨⟨hordered, -⟩, -⟩, hcomplete⟩ := hgo
    refine .inr ⟨hcomplete, ?_⟩
    rw [hclock hordered]
    simp only
    split
    · rename_i effect hpending
      split
      · rename_i hgo
        simp only [Bool.and_eq_true, Bool.not_eq_true'] at hgo
        exact .inl ⟨effect, hpending, hgo.2, rfl⟩
      · exact .inr (.inl rfl)
    · rename_i hpending
      exact .inr (.inr ⟨hpending, rfl⟩)

theorem refused_frame (r : ApprovalReducer) (now : Instant) : (refused r now).wait = r.wait ∧
    (refused r now).fence = r.fence ∧ (refused r now).nextCandidate = r.nextCandidate := by
  simp [refused]

theorem observe_moves (status : NativeStatus) (complete : Bool) (startedAt now : Instant) :
    WaitMoves r (.observe status complete startedAt now)
      (r.observe status complete startedAt now).1 := by
  obtain heq | ⟨rfl, ⟨effect, -, -, heq⟩ | heq | ⟨-, heq⟩⟩ :=
    observe_cases r status complete startedAt now
  · obtain ⟨hwait, -, hnext⟩ := displayDue_frame (refused r now) now
    obtain ⟨hwait', -, hnext'⟩ := refused_frame r now
    rw [heq]
    exact .kept (hwait.trans hwait') (Nat.le_of_eq (hnext.trans hnext').symm)
  · rw [heq]
    exact .kept rfl (Nat.le_refl _)
  · obtain ⟨-, hnext, hwait⟩ := observed_wait (retained r status startedAt now).lock
      (r.observation.map (·.status)) status startedAt now
    rw [← heq] at hnext hwait
    rcases hwait with hkept | ⟨record, wait, -, -, -, hretires, -⟩
    · exact .kept hkept (Nat.le_of_eq hnext.symm)
    · -- a locked reducer retires nothing
      have := hretires.unlocked
      simp at this
  · obtain ⟨-, hnext, hwait⟩ := observed_wait (retained r status startedAt now)
      (r.observation.map (·.status)) status startedAt now
    rw [← heq] at hnext hwait
    rcases hwait with hkept | ⟨record, wait, rfl, hprev, hw, hretires, hsaw, hnone, hlocked⟩
    · exact .kept hkept (Nat.le_of_eq hnext.symm)
    · obtain ⟨o, ho, hstatus⟩ := Option.map_eq_some_iff.mp hprev
      have hretires' : Retires r record wait :=
        ⟨hretires.unlocked, hretires.recorded, hretires.unshown, hretires.exact_candidate⟩
      exact .released hw (.resolved hretires' hsaw ho hstatus hlocked) hnone
        (Nat.le_of_eq hnext.symm)

theorem tickStart_frame (r : ApprovalReducer) (now : Instant) :
    (tickStart r now).wait = r.wait ∧ (tickStart r now).fence = r.fence ∧
      (tickStart r now).nextCandidate = r.nextCandidate := by
  have hclock : (tickClock r now).wait = r.wait ∧ (tickClock r now).fence = r.fence ∧
      (tickClock r now).nextCandidate = r.nextCandidate := by
    unfold tickClock
    split <;> simp
  unfold tickStart
  split
  · split <;> simpa using hclock
  · exact hclock

theorem tick_moves (now : Instant) : WaitMoves r (.tick now) (r.tick now).1 := by
  obtain ⟨hwait, -, hnext⟩ := tickStart_frame r now
  rw [tick_eq]
  split
  · exact .kept hwait (Nat.le_of_eq hnext.symm)
  · obtain ⟨hwait', -, hnext'⟩ := displayDue_frame (tickStart r now) now
    exact .kept (hwait'.trans hwait) (Nat.le_of_eq (hnext'.trans hnext).symm)

theorem acknowledgeShow_moves (effect : Effect) :
    WaitMoves r (.acknowledgeShow effect) (r.acknowledgeShow effect).1 := by
  unfold acknowledgeShow
  split
  · exact .kept rfl (Nat.le_refl _)
  · cases effect with
    | clearWait c f => exact .kept rfl (Nat.le_refl _)
    | showWait c f =>
      simp only
      split
      · exact .kept rfl (Nat.le_refl _)
      · rename_i hfence
        split
        · exact .kept rfl (Nat.le_refl _)
        · rename_i wait hwait
          obtain ⟨hw, hc⟩ := Option.filter_eq_some_iff.mp hwait
          have hcandidate : wait.candidate = c := by simpa using hc
          have hf : f = r.fence := by simpa using hfence
          exact .shown hw (by rw [hcandidate, hf]) rfl rfl

/-- The pending clear is the one of the open wait, so its acknowledgement ends
that wait. -/
theorem acknowledgeClear_moves (h : Core E r) (effect : Effect) :
    WaitMoves r (.acknowledgeClear effect) (r.acknowledgeClear effect).1 := by
  unfold acknowledgeClear
  split
  · exact .kept rfl (Nat.le_refl _)
  · rename_i hgo
    have haccepted : r.accepts effect = true ∧ r.pendingClear = some effect := by
      simpa using hgo
    obtain ⟨-, wait, id, hw, -, -, rfl, -⟩ := h.pendingClear effect haccepted.2
    exact .released hw (.cleared haccepted.1 haccepted.2) rfl (Nat.le_refl _)

theorem apply_wait (h : Core E r) (a : Input) : WaitMoves r a (r.apply a).1 := by
  cases a with
  | hook event toolId now => exact hook_moves event toolId now
  | observe status complete startedAt now => exact observe_moves status complete startedAt now
  | tick now => exact tick_moves now
  | invalidate f => exact reset_moves (a := .invalidate f) trivial rfl rfl
  | disconnected =>
    refine .kept ?_ (Nat.le_of_eq ?_)
    · simp [ApprovalReducer.apply, disconnected]
    · simp [ApprovalReducer.apply, disconnected]
  | acknowledgeShow effect => exact acknowledgeShow_moves effect
  | acknowledgeClear effect => exact acknowledgeClear_moves h effect

end moves

/-! ## The calls that show a wait -/

/-- A `ShowWait` among what a call returned is the one of the open wait, and the
wait was received a display delay before the time of the call. -/
def Shows (now : Instant) (p : ApprovalReducer × List Effect) : Prop :=
  ∀ c f, .showWait c f ∈ p.2 →
    ∃ wait, p.1.wait = some wait ∧ wait.candidate = c ∧ wait.receivedAt + grace ≤ now

section shows
variable {r : ApprovalReducer} {now : Instant}

variable {toolId : Option String}

theorem past_deadline {received now : Nat} :
    (decide (received ≤ now) && decide (grace ≤ now - received)) = true ↔
      received + grace ≤ now := by
  simp only [Bool.and_eq_true, decide_eq_true_eq]
  omega

theorem shows_displayDue (r : ApprovalReducer) (now : Instant) : Shows now (r.displayDue now) := by
  intro c f hmem
  unfold displayDue at hmem ⊢
  split at hmem
  · simp at hmem
  · rename_i wait hwait
    split at hmem
    · simp at hmem
    · rename_i hdue
      split at hmem
      · simp at hmem
      · rename_i hquiet
        simp only [issue, mem_singleton, Effect.showWait.injEq] at hmem
        rw [if_neg hdue, if_neg hquiet]
        refine ⟨wait, hwait, hmem.1.symm, ?_⟩
        simp only [Bool.or_eq_true, Bool.not_eq_true', not_or, Bool.not_eq_false] at hdue
        exact past_deadline.mp hdue.2

theorem shows_of_clear {p : ApprovalReducer × List Effect}
    (h : ∀ effect ∈ p.2, ∃ c f, effect = .clearWait c f) : Shows now p := by
  intro c f hmem
  obtain ⟨c', f', heq⟩ := h _ hmem
  cases heq

variable {f : Fence}

theorem shows_issue : Shows now (r.issue (.clearWait c f)) := by
  apply shows_of_clear
  intro effect heff
  exact ⟨c, f, mem_singleton.mp heff⟩

variable {effect : Effect} {r' : ApprovalReducer}

theorem retire_effect {index : Nat} (h : r.retire index = (r', some effect)) :
    ∃ c f, effect = .clearWait c f := by
  obtain heq | ⟨record, c, -, -, heq | ⟨-, -, -, heq⟩ | ⟨wait, -, -, -, -, -, heq⟩⟩ :=
    retire_cases r index
  all_goals rw [heq] at h
  all_goals simp only [Prod.mk.injEq, reduceCtorEq, and_false, Option.some.injEq] at h
  exact ⟨_, _, h.2.symm⟩

theorem post_effect (h : r.post toolId = (r', some effect)) :
    ∃ c f, effect = .clearWait c f := by
  unfold post at h
  split at h
  · simp at h
  · split at h
    · simp at h
    · split at h
      · simp at h
      · simp only at h
        split at h
        · simp at h
        · exact retire_effect h

theorem observeActive_effect {previous : Option NativeStatus}
    (h : r.observeActive previous = (r', some effect)) : ∃ c f, effect = .clearWait c f := by
  unfold observeActive at h
  split at h
  · split at h
    · split at h
      · exact retire_effect h
      · simp at h
    · simp at h
  · simp at h

theorem shows_hook (r : ApprovalReducer) (event : HookEvent) (toolId : Option String)
    (now : Instant) : Shows now (r.hook event toolId now) := by
  cases event with
  | stop => exact shows_of_clear (by simp [hook])
  | userPromptSubmit => exact shows_of_clear (by simp [hook])
  | preToolUse => exact shows_displayDue _ now
  | permissionRequest => exact shows_displayDue _ now
  | postToolUse =>
    rw [hook_postToolUse]
    split
    · rename_i r' effect heq
      obtain ⟨c, f, rfl⟩ := post_effect heq
      exact shows_issue
    · exact shows_displayDue _ now

theorem shows_observed (r : ApprovalReducer) (previous : Option NativeStatus)
    (status : NativeStatus) (startedAt now : Instant) :
    Shows now (r.observed previous status startedAt now) := by
  cases status with
  | approvalPending => exact shows_displayDue _ now
  | userInputPending => exact shows_displayDue _ now
  | unavailable => exact shows_displayDue _ now
  | active =>
    unfold observed
    simp only
    split
    · rename_i r' effect heq
      obtain ⟨c, f, rfl⟩ := observeActive_effect heq
      exact shows_issue
    · exact shows_displayDue _ now

variable {E : Evidence}

theorem shows_observe (h : Core E r) (status : NativeStatus) (complete : Bool)
    (startedAt now : Instant) : Shows now (r.observe status complete startedAt now) := by
  obtain heq | ⟨-, ⟨effect, hpending, -, heq⟩ | heq | ⟨-, heq⟩⟩ :=
    observe_cases r status complete startedAt now
  · rw [heq]
    exact shows_displayDue _ now
  · obtain ⟨-, wait, id, -, -, -, rfl, -⟩ := h.pendingClear effect hpending
    rw [heq]
    exact shows_issue
  · rw [heq]
    exact shows_observed _ _ _ _ _
  · rw [heq]
    exact shows_observed _ _ _ _ _

theorem shows_tick (h : Core E r) (now : Instant) : Shows now (r.tick now) := by
  rw [tick_eq]
  split
  · rename_i effect hpending
    obtain ⟨-, wait, id, -, -, -, rfl, -⟩ := (core_tickStart h now).pendingClear effect hpending
    exact shows_issue
  · exact shows_displayDue _ now

theorem apply_shows (h : Core E r) (a : Input) (heff : .showWait c f ∈ (r.apply a).2) :
    ∃ now wait, a.now = some now ∧ (r.apply a).1.wait = some wait ∧ wait.candidate = c ∧
      wait.receivedAt + grace ≤ now := by
  cases a with
  | hook event toolId now => exact ⟨now, _, rfl, (shows_hook r event toolId now c f heff).choose_spec⟩
  | observe status complete startedAt now =>
    exact ⟨now, _, rfl, (shows_observe h status complete startedAt now c f heff).choose_spec⟩
  | tick now => exact ⟨now, _, rfl, (shows_tick h now c f heff).choose_spec⟩
  | invalidate f => cases heff
  | disconnected => cases heff
  | acknowledgeShow effect => cases heff
  | acknowledgeClear effect => cases heff

/-! ### A locked reducer past the deadline -/

/-- An unacknowledged wait of a locked reducer, past its deadline. -/
structure Overdue (r : ApprovalReducer) (wait : Wait) (now : Instant) : Prop where
  locked : r.locked = true
  open_wait : r.wait = some wait
  unshown : wait.shown = false
  due : wait.receivedAt + grace ≤ now

theorem Overdue.displayDue {wait : Wait} (h : Overdue r wait now) :
    (r.displayDue now).2 = [.showWait wait.candidate r.fence] := by
  have hclock := past_deadline.mpr h.due
  unfold ApprovalReducer.displayDue
  rw [h.open_wait]
  simp only [h.unshown, hclock, h.locked, Bool.not_true, Bool.or_self, Bool.false_and,
    Bool.false_eq_true, if_false, issue]

variable {wait : Wait}

theorem Overdue.shown_by (h : Overdue r wait now) {q : ApprovalReducer} (hlocked : q.locked = true)
    (hwait : q.wait = r.wait) (hfence : q.fence = r.fence) :
    (q.displayDue now).2 = [.showWait wait.candidate r.fence] := by
  have hq : Overdue q wait now := ⟨hlocked, hwait.trans h.open_wait, h.unshown, h.due⟩
  rw [hq.displayDue, hfence]

theorem Overdue.hook (h : Overdue r wait now) {event : HookEvent}
    (hreset : ¬ (Input.hook event toolId now).isReset) :
    (r.hook event toolId now).2 = [.showWait wait.candidate r.fence] := by
  have hstart : (hookStart r now).locked = true := by
    refine advanceClock_locked (lockIf_locked ?_ _) now
    exact h.locked
  cases event with
  | stop => exact absurd trivial hreset
  | userPromptSubmit => exact absurd trivial hreset
  | preToolUse =>
    obtain ⟨hwait, hfence, -⟩ := pre_frame (hookStart r now) toolId
    exact h.shown_by (pre_locked hstart toolId) (hwait.trans (hookStart_wait now))
      (hfence.trans (hookStart_fence now))
  | permissionRequest =>
    obtain ⟨hfence, hwait⟩ := permission_wait (hookStart r now) toolId now
    rw [hookStart_wait, h.open_wait] at hwait
    -- a wait is open, so the request opens none
    have hkept := (hwait.resolve_right (fun hopen => absurd hopen.1 (by simp))).1
    exact h.shown_by (permission_locked hstart toolId now) (hkept.trans h.open_wait.symm)
      (hfence.trans (hookStart_fence now))
  | postToolUse =>
    have hlocked : (postStart r now).locked = true := lockIf_locked hstart _
    obtain ⟨hfence, -, hwait⟩ := post_wait (postStart r now) toolId
    have hpost := post_locked hlocked toolId
    rw [hook_postToolUse]
    split
    · rename_i heq
      have := (post_some heq).1
      rw [hlocked] at this
      cases this
    · rename_i r' heq
      rw [heq] at hfence hwait hpost
      refine h.shown_by hpost ?_ (hfence.trans (postStart_fence now))
      rcases hwait with hkept | ⟨_, _, _, -, -, -, -, hretires, -⟩
      · exact hkept.trans (postStart_wait now)
      · have := hretires.unlocked
        rw [hlocked] at this
        cases this

theorem Overdue.observed (h : Overdue r wait now) (previous : Option NativeStatus)
    (status : NativeStatus) (startedAt : Instant) :
    (r.observed previous status startedAt now).2 = [.showWait wait.candidate r.fence] := by
  cases status with
  | approvalPending =>
    have hsame : r.observePending previous startedAt = r := by simp [observePending, h.locked]
    change ((r.observePending previous startedAt).displayDue now).2 = _
    rw [hsame]
    exact h.displayDue
  | userInputPending => exact h.shown_by rfl rfl rfl
  | unavailable =>
    exact h.shown_by (lockIf_locked h.locked _) (lockIf_wait ..) (lockIf_fence ..)
  | active =>
    have hsame : r.observeActive previous = (r, none) := by simp [observeActive, h.locked]
    simp only [ApprovalReducer.observed, hsame]
    exact h.displayDue

theorem Overdue.observe (h : Overdue r wait now) (status : NativeStatus) (complete : Bool)
    (startedAt : Instant) :
    (r.observe status complete startedAt now).2 = [.showWait wait.candidate r.fence] := by
  obtain heq | ⟨-, ⟨effect, -, hunlocked, -⟩ | heq | ⟨-, heq⟩⟩ :=
    observe_cases r status complete startedAt now
  · obtain ⟨hwait, hfence, -⟩ := refused_frame r now
    rw [heq]
    exact h.shown_by rfl hwait hfence
  · rw [h.locked] at hunlocked
    cases hunlocked
  · have hq : Overdue (retained r status startedAt now).lock wait now :=
      ⟨rfl, h.open_wait, h.unshown, h.due⟩
    rw [heq, hq.observed]
    rfl
  · have hq : Overdue (retained r status startedAt now) wait now :=
      ⟨h.locked, h.open_wait, h.unshown, h.due⟩
    rw [heq, hq.observed]
    rfl

theorem Overdue.tick (hcore : Core E r) (h : Overdue r wait now) :
    (r.tick now).2 = [.showWait wait.candidate r.fence] := by
  have hlocked := tickStart_locked h.locked now
  rw [tick_eq]
  split
  · -- a pending clear needs an unlocked reducer
    rename_i effect hpending
    have := ((core_tickStart hcore now).pendingClear effect hpending).1
    rw [hlocked] at this
    cases this
  · obtain ⟨hwait, hfence, -⟩ := tickStart_frame r now
    exact h.shown_by hlocked hwait hfence

theorem Overdue.apply (hcore : Core E r) (h : Overdue r wait now) {a : Input}
    (hnow : a.now = some now) (hreset : ¬ a.isReset) :
    (r.apply a).2 = [.showWait wait.candidate r.fence] := by
  cases a with
  | hook event toolId time =>
    cases hnow
    exact h.hook hreset
  | observe status complete startedAt time =>
    cases hnow
    exact h.observe status complete startedAt
  | tick time =>
    cases hnow
    exact h.tick hcore
  | invalidate f => cases hnow
  | disconnected => cases hnow
  | acknowledgeShow effect => cases hnow
  | acknowledgeClear effect => cases hnow

end shows

/-! ## Waits over a run -/

/-- Candidate `c` was opened, with the wait for it, by a permission request that
was received at `time`. -/
def Received (fence : Fence) (inputs : List Input) (c : CandidateId) (time : Instant) : Prop :=
  SinceReset fence (fun _ s a t => ∃ toolId, a = .hook .permissionRequest toolId time ∧
    s.wait = none ∧ c = s.nextCandidate + 1 ∧ t.wait = some ⟨c, time, false⟩) inputs

variable {a : Input}

theorem reset_wait (r : ApprovalReducer) (ha : a.isReset) : (r.apply a).1.wait = none := by
  cases a with
  | hook event toolId now =>
    cases event with
    | stop => rfl
    | userPromptSubmit => rfl
    | _ => exact ha.elim
  | invalidate f => rfl
  | _ => exact ha.elim

variable {fence : Fence} {inputs : List Input}

theorem wait_received (h : Run Step (new fence) inputs r) :
    ∀ wait, r.wait = some wait → Received fence inputs wait.candidate wait.receivedAt ∧
      wait.candidate ≤ r.nextCandidate := by
  refine Run.history (fun inputs r => ∀ wait, r.wait = some wait →
    Received fence inputs wait.candidate wait.receivedAt ∧ wait.candidate ≤ r.nextCandidate)
    ?_ ?_ h
  · intro wait hwait
    cases hwait
  · intro inputs s a t hrun ih hstep wait hwait
    have hreset : ¬ a.isReset := by
      intro ha
      rw [hstep, reset_wait s ha] at hwait
      cases hwait
    have hmoves := apply_wait (reachable_inv hrun).core a
    rw [← hstep] at hmoves
    cases hmoves with
    | kept hsame hmono =>
      obtain ⟨hreceived, hcounted⟩ := ih wait (hsame ▸ hwait)
      exact ⟨hreceived.later hreset, Nat.le_trans hcounted hmono⟩
    | opened ha hnone hopen hnext =>
      rw [hwait] at hopen
      cases hopen
      exact ⟨Occurred.here hrun hstep ⟨_, ha, hnone, rfl, hwait⟩, Nat.le_of_eq hnext.symm⟩
    | shown hold _ hnew hnext =>
      rw [hwait] at hnew
      cases hnew
      obtain ⟨hreceived, hcounted⟩ := ih _ hold
      exact ⟨hreceived.later hreset, Nat.le_trans hcounted (Nat.le_of_eq hnext.symm)⟩
    | released _ _ hnone _ =>
      rw [hwait] at hnone
      cases hnone

theorem reception_step (h : Core E r) (a : Input) {time : Instant} (hcounted : c ≤ r.nextCandidate)
    (hsame : ∀ wait, r.wait = some wait → wait.candidate = c → wait.receivedAt = time) :
    c ≤ (r.apply a).1.nextCandidate ∧
      ∀ wait, (r.apply a).1.wait = some wait → wait.candidate = c → wait.receivedAt = time := by
  cases apply_wait h a with
  | kept hkept hmono =>
    refine ⟨Nat.le_trans hcounted hmono, ?_⟩
    rw [hkept]
    exact hsame
  | opened _ _ hopen hnext =>
    refine ⟨by rw [hnext]; exact Nat.le_succ_of_le hcounted, ?_⟩
    intro wait hwait hc
    rw [hopen] at hwait
    cases hwait
    -- the new candidate is none of those counted before
    exact absurd (hc ▸ hcounted) (Nat.not_succ_le_self _)
  | shown hold _ hnew hnext =>
    refine ⟨by rw [hnext]; exact hcounted, ?_⟩
    intro wait hwait hc
    rw [hnew] at hwait
    cases hwait
    have hkept := hsame _ hold hc
    exact hkept
  | released _ _ hnone hmono =>
    refine ⟨Nat.le_trans hcounted hmono, ?_⟩
    intro wait hwait
    rw [hnone] at hwait
    cases hwait

variable {wait : Wait}

variable {later : List Input}

theorem reception_run {r' : ApprovalReducer} (h : Run Step (new fence) inputs r)
    (hlater : Run Step r later r') (hwait : r.wait = some wait) :
    wait.candidate ≤ r'.nextCandidate ∧
      ∀ w, r'.wait = some w → w.candidate = wait.candidate → w.receivedAt = wait.receivedAt := by
  induction hlater with
  | start =>
    refine ⟨(wait_received h wait hwait).2, ?_⟩
    intro w hw _
    rw [hwait] at hw
    cases hw
    rfl
  | next hrun hstep ih =>
    rw [hstep]
    exact reception_step (reachable_inv (h.append hrun)).core _ ih.1 ih.2

theorem locked_wait_kept (h : Core E r) (hlocked : r.locked = true) (hwait : r.wait = some wait)
    (hreset : ¬ a.isReset) :
    ∃ w, (r.apply a).1.wait = some w ∧ w.candidate = wait.candidate ∧
      w.receivedAt = wait.receivedAt := by
  cases apply_wait h a with
  | kept hkept _ => exact ⟨wait, hkept.trans hwait, rfl, rfl⟩
  | opened _ hnone _ _ =>
    rw [hwait] at hnone
    cases hnone
  | shown hold _ hnew _ =>
    rw [hwait] at hold
    cases hold
    exact ⟨_, hnew, rfl, rfl⟩
  | released hold hreleases _ _ =>
    have hunlocked : r.locked = false := by
      cases hreleases with
      | reset ha => exact absurd ha hreset
      | cleared _ hpending => exact (h.pendingClear _ hpending).1
      | completed hretires _ _ _ => exact hretires.unlocked
      | resolved hretires _ _ _ _ => exact hretires.unlocked
    rw [hlocked] at hunlocked
    cases hunlocked

theorem locked_wait_run {r' : ApprovalReducer} (h : Run Step (new fence) inputs r)
    (hlocked : r.locked = true) (hwait : r.wait = some wait) (hlater : Run Step r later r')
    (hno : ∀ a ∈ later, ¬ a.isReset) :
    ∃ w, r'.wait = some w ∧ w.candidate = wait.candidate ∧ w.receivedAt = wait.receivedAt := by
  induction hlater with
  | start => exact ⟨wait, hwait, rfl, rfl⟩
  | next hrun hstep ih =>
    rename_i as s t a
    have hbefore : ∀ b ∈ as, ¬ b.isReset := fun b hb => hno b (mem_cons_of_mem a hb)
    obtain ⟨w, hw, hcandidate, hreceived⟩ := ih hbefore
    obtain ⟨w', hw', hcandidate', hreceived'⟩ :=
      locked_wait_kept (reachable_inv (h.append hrun)).core (run_locked hlocked hrun hbefore) hw
        (hno a mem_cons_self)
    rw [hstep]
    exact ⟨w', hw', hcandidate'.trans hcandidate, hreceived'.trans hreceived⟩

/-- Approval waits are displayed conservatively. In every run, whatever the clock
does: a returned `ShowWait` comes a display delay after the permission request of
its candidate; waits of one candidate have one reception time; a call keeps an open
wait or releases it as `Releases` lists; and in a locked reducer the wait stays
until a reset, and every timed call past its deadline returns its `ShowWait` unless
that was acknowledged. -/
theorem approval_waits_conservative (fence : Fence) (inputs : List Input) (r : ApprovalReducer)
    (h : Run Step (new fence) inputs r) :
    (∀ a c f, .showWait c f ∈ (r.apply a).2 → ∃ now time, a.now = some now ∧
      Received fence (a :: inputs) c time ∧ time + grace ≤ now) ∧
    (∀ later r' wait wait', Run Step r later r' → r.wait = some wait → r'.wait = some wait' →
      wait'.candidate = wait.candidate → wait'.receivedAt = wait.receivedAt) ∧
    (∀ a wait, r.wait = some wait →
      (∃ shown, (r.apply a).1.wait = some { wait with shown := shown }) ∨
      (r.apply a).1.wait = none ∧ Releases r wait a) ∧
    (∀ wait, r.locked = true → r.wait = some wait → ∀ later r', Run Step r later r' →
      (∀ a ∈ later, ¬ a.isReset) →
      ∃ wait', r'.wait = some wait' ∧ wait'.candidate = wait.candidate ∧
        wait'.receivedAt = wait.receivedAt ∧
        ∀ a now, a.now = some now → ¬ a.isReset → wait.receivedAt + grace ≤ now →
          (r'.apply a).2 = [.showWait wait.candidate r'.fence] ∨
          Shown fence (later ++ inputs) wait.candidate r'.fence) := by
  refine ⟨?_, ?_, ?_, ?_⟩
  · intro a c f heff
    obtain ⟨now, wait, hnow, hwait, rfl, hdue⟩ := apply_shows (reachable_inv h).core a heff
    exact ⟨now, wait.receivedAt, hnow, (wait_received (h.next rfl) wait hwait).1, hdue⟩
  · intro later r' wait wait' hlater hwait hwait' hsame
    exact (reception_run h hlater hwait).2 wait' hwait' hsame
  · intro a wait hwait
    cases apply_wait (reachable_inv h).core a with
    | kept hkept _ => exact .inl ⟨wait.shown, hkept.trans hwait⟩
    | opened _ hnone _ _ =>
      rw [hwait] at hnone
      cases hnone
    | shown hold _ hnew _ =>
      rw [hwait] at hold
      cases hold
      exact .inl ⟨true, hnew⟩
    | released hold hreleases hnone _ =>
      rw [hwait] at hold
      cases hold
      exact .inr ⟨hnone, hreleases⟩
  · intro wait hlocked hwait later r' hlater hno
    have hrun := h.append hlater
    obtain ⟨w, hw, hcandidate, hreceived⟩ := locked_wait_run h hlocked hwait hlater hno
    refine ⟨w, hw, hcandidate, hreceived, ?_⟩
    intro a now hnow hreset hdue
    rw [← hcandidate]
    cases hshown : w.shown with
    | true => exact .inr ((reachable_inv hrun).core.shown w hw hshown)
    | false =>
      have hoverdue : Overdue r' w now :=
        ⟨run_locked hlocked hlater hno, hw, hshown, by rw [hreceived]; exact hdue⟩
      exact .inl (hoverdue.apply (reachable_inv hrun).core hnow hreset)

/-- A request without a `PreToolUse` locks the reducer and opens a wait. The clock
runs backwards after it, and the wait is shown once its two seconds are over. -/
theorem locked_request_shown :
    ((after ⟨0, 0, 0, 0⟩ [.tick 3, .hook .permissionRequest (some "call") 5]).apply
        (.tick 2_000_000_005)).2 = [.showWait 1 ⟨0, 0, 0, 0⟩] ∧
      ∃ time, Received ⟨0, 0, 0, 0⟩
        [.tick 2_000_000_005, .tick 3, .hook .permissionRequest (some "call") 5] 1 time ∧
        time + grace ≤ 2_000_000_005 := by
  have hshown : ((after ⟨0, 0, 0, 0⟩ [.tick 3, .hook .permissionRequest (some "call") 5]).apply
      (.tick 2_000_000_005)).2 = [.showWait 1 ⟨0, 0, 0, 0⟩] := by decide
  have hrun := run_after ⟨0, 0, 0, 0⟩ [.tick 3, .hook .permissionRequest (some "call") 5]
  obtain ⟨now, time, hnow, hreceived, hdue⟩ :=
    (approval_waits_conservative _ _ _ hrun).1 (.tick 2_000_000_005) 1 ⟨0, 0, 0, 0⟩
      (by rw [hshown]; exact mem_cons_self)
  cases hnow
  exact ⟨hshown, time, hreceived, hdue⟩

end Orkworksd.CodexApproval
