import Orkworksd.Runtime.PromptResetEpoch

/- Reset retries are single-flight and lose no request.

   `schedule_reset_retry` and `finish_reset_retry` share two flags of the authority:
   a worker is scheduled, and another request came in meanwhile. No other method writes
   them (`keepsRetry_of_quiet`), so a span of calls without the finish that returns false
   is followed by looking at the two methods only, whatever else is called in it.

   Main result: `reset_retry_single_flight`. -/
namespace Orkworksd.PromptAuthority

/-- The call is the finish that returns false: the worker stops. -/
def Op.EndsRetry (entry : SessionAuthority) : Op → Prop
  | .finishResetRetry => (PromptAuthority.finishResetRetry entry).2 = false
  | _ => False

/-! ## The two flags -/

/-- The two flags of the retry worker are as before. -/
def KeepsRetry (entry after : SessionAuthority) : Prop :=
  after.resetRetryScheduled = entry.resetRetryScheduled ∧
    after.resetRetryRequested = entry.resetRetryRequested

section flags
variable (entry : SessionAuthority)

variable (harnessId : String)

variable (generation id : String)

theorem keepsRetry_registerNativeId (lifecycleReset : Bool) (observedAt : Option DateTime) :
    KeepsRetry entry
      (registerNativeId entry harnessId generation id lifecycleReset observedAt).1 := by
  unfold registerNativeId holdCandidate
  repeat' split
  all_goals exact ⟨rfl, rfl⟩

theorem keepsRetry_reserveReset (command : String) (now : DateTime) :
    KeepsRetry entry (reserveReset entry harnessId command now).1 := by
  unfold reserveReset
  simp only
  split
  · exact ⟨rfl, rfl⟩
  · exact ⟨rfl, rfl⟩

theorem keepsRetry_completeReset : KeepsRetry entry (completeReset entry).1 := by
  unfold completeReset
  repeat' split
  all_goals exact ⟨rfl, rfl⟩

theorem keepsRetry_queuePromptWait (notificationType : String) (observedAt : Option DateTime)
    (receipt committed : Nat) (cwd : Option String) :
    KeepsRetry entry (queuePromptWait entry harnessId generation id notificationType observedAt
      receipt committed cwd).1 := by
  unfold queuePromptWait
  repeat' split
  all_goals exact ⟨rfl, rfl⟩

theorem keepsRetry_of_quiet {op : Op} (hschedule : op ≠ .scheduleResetRetry)
    (hfinish : op ≠ .finishResetRetry) : KeepsRetry entry (op.apply entry) := by
  cases op with
  | registerNativeId harnessId generation id lifecycleReset observedAt =>
    exact keepsRetry_registerNativeId entry ..
  | reserveReset harnessId command now => exact keepsRetry_reserveReset entry ..
  | acknowledgeReset =>
    show KeepsRetry entry (acknowledgeReset entry).1
    unfold acknowledgeReset
    repeat' split
    all_goals exact ⟨rfl, rfl⟩
  | completeReset => exact keepsRetry_completeReset entry
  | markResetPromptTupleClearApplied =>
    show KeepsRetry entry (markResetPromptTupleClearApplied entry).1
    unfold markResetPromptTupleClearApplied
    repeat' split
    all_goals exact ⟨rfl, rfl⟩
  | noteResetSubmissionInputSequence inputSequence => exact ⟨rfl, rfl⟩
  | deactivateForReset =>
    show KeepsRetry entry (deactivateForReset entry)
    unfold deactivateForReset
    split <;> exact ⟨rfl, rfl⟩
  | finishQueuedPromptWait receiptSequence =>
    show KeepsRetry entry (finishQueuedPromptWait entry receiptSequence).1
    unfold finishQueuedPromptWait
    repeat' split
    all_goals exact ⟨rfl, rfl⟩
  | queuePromptWait harnessId generation id notificationType observedAt receipt committed cwd =>
    exact keepsRetry_queuePromptWait entry ..
  | cancelReset => exact ⟨rfl, rfl⟩
  | activate harnessId generation id =>
    show KeepsRetry entry (activate entry harnessId generation id).1
    unfold activate
    split <;> exact ⟨rfl, rfl⟩
  | scheduleResetRetry => exact absurd rfl hschedule
  | finishResetRetry => exact absurd rfl hfinish
  | revoke generation =>
    show KeepsRetry entry (revoke entry generation)
    unfold revoke
    split <;> exact ⟨rfl, rfl⟩

/-! ## The two methods -/

theorem scheduleResetRetry_result : (scheduleResetRetry entry).2 =
    (resetCommitPending entry && !entry.resetRetryScheduled) := by
  unfold scheduleResetRetry
  cases hpending : resetCommitPending entry with
  | false => rfl
  | true =>
    cases hscheduled : entry.resetRetryScheduled with
    | false => simp
    | true => simp

theorem scheduleResetRetry_scheduled :
    (scheduleResetRetry entry).1.resetRetryScheduled =
      (entry.resetRetryScheduled || resetCommitPending entry) := by
  unfold scheduleResetRetry
  cases hpending : resetCommitPending entry with
  | false => simp
  | true =>
    cases hscheduled : entry.resetRetryScheduled with
    | false => simp
    | true => simp

theorem scheduleResetRetry_requested :
    (scheduleResetRetry entry).1.resetRetryRequested =
      (entry.resetRetryRequested || (resetCommitPending entry && entry.resetRetryScheduled)) := by
  unfold scheduleResetRetry
  cases hpending : resetCommitPending entry with
  | false => simp
  | true =>
    cases hscheduled : entry.resetRetryScheduled with
    | false => simp
    | true => simp

theorem resetCommitPending_scheduleResetRetry :
    resetCommitPending (scheduleResetRetry entry).1 = resetCommitPending entry := by
  unfold scheduleResetRetry
  repeat' split
  all_goals rfl

theorem finishResetRetry_result : (finishResetRetry entry).2 =
    (resetCommitPending entry && entry.resetRetryRequested) := by
  unfold finishResetRetry
  split
  · rename_i hgo
    exact hgo.symm
  · rename_i hstop
    exact (Bool.not_eq_true _ ▸ hstop).symm

theorem finishResetRetry_scheduled : (finishResetRetry entry).1.resetRetryScheduled =
    (entry.resetRetryScheduled && (finishResetRetry entry).2) := by
  unfold finishResetRetry
  split
  · simp
  · simp

end flags

/-! ## Spans -/

section spans
variable {entry : SessionAuthority}

variable {op : Op}

theorem scheduled_apply (h : entry.resetRetryScheduled = true) (hop : ¬ op.EndsRetry entry) :
    (op.apply entry).resetRetryScheduled = true := by
  by_cases hschedule : op = .scheduleResetRetry
  · subst hschedule
    show (scheduleResetRetry entry).1.resetRetryScheduled = true
    rw [scheduleResetRetry_scheduled, h]
    rfl
  · by_cases hfinish : op = .finishResetRetry
    · subst hfinish
      have hgo : (finishResetRetry entry).2 = true := Bool.not_eq_false _ ▸ hop
      show (finishResetRetry entry).1.resetRetryScheduled = true
      rw [finishResetRetry_scheduled, h, hgo]
      rfl
    · exact (keepsRetry_of_quiet entry hschedule hfinish).1.trans h

variable {ops : List Op}

theorem scheduled_run (h : entry.resetRetryScheduled = true) (hspan : Never Op.EndsRetry entry ops) :
    (ops.foldl Op.apply entry).resetRetryScheduled = true := by
  induction ops generalizing entry with
  | nil => exact h
  | cons op ops ih => exact ih (scheduled_apply h hspan.1) hspan.2

theorem requested_apply (h : entry.resetRetryRequested = true) (hop : op ≠ .finishResetRetry) :
    (op.apply entry).resetRetryRequested = true := by
  by_cases hschedule : op = .scheduleResetRetry
  · subst hschedule
    show (scheduleResetRetry entry).1.resetRetryRequested = true
    rw [scheduleResetRetry_requested, h]
    rfl
  · exact (keepsRetry_of_quiet entry hschedule hop).2.trans h

theorem requested_run (h : entry.resetRetryRequested = true)
    (hno : ∀ op ∈ ops, op ≠ .finishResetRetry) :
    (ops.foldl Op.apply entry).resetRetryRequested = true := by
  induction ops generalizing entry with
  | nil => exact h
  | cons op ops ih =>
    exact ih (requested_apply h (hno op List.mem_cons_self))
      (fun op' hop' => hno op' (List.mem_cons_of_mem op hop'))

theorem pending_schedules (h : resetCommitPending entry = true)
    (hall : ∀ op ∈ ops, op = .scheduleResetRetry) :
    resetCommitPending (ops.foldl Op.apply entry) = true := by
  induction ops generalizing entry with
  | nil => exact h
  | cons op ops ih =>
    have hop : op.apply entry = (scheduleResetRetry entry).1 := by
      rw [hall op List.mem_cons_self]
      rfl
    have hnext : resetCommitPending (op.apply entry) = true := by
      rw [hop, resetCommitPending_scheduleResetRetry]
      exact h
    exact ih hnext (fun op' hop' => hall op' (List.mem_cons_of_mem op hop'))

end spans

/-- On any entry, and so on an issued authority after any calls, let a schedule return
true and let `later` be the calls after it up to a moment, none of them a finish that
returned false. Then a schedule at that moment returns false. If a reset is pending
there, the refused request is not lost: whatever is called before the next finish, that
finish returns true exactly when the reset is still pending, and so it does when only
schedules come between. The finish that returns false leaves the next pending request
free to start a worker. -/
theorem reset_retry_single_flight (entry : SessionAuthority)
    (hstarted : (scheduleResetRetry entry).2 = true) (later : List Op)
    (hspan : Never Op.EndsRetry (scheduleResetRetry entry).1 later) (now : SessionAuthority)
    (hnow : later.foldl Op.apply (scheduleResetRetry entry).1 = now) :
    (scheduleResetRetry now).2 = false ∧
    (resetCommitPending now = true → ∀ between : List Op,
      (∀ op ∈ between, op ≠ .finishResetRetry) →
        (finishResetRetry (between.foldl Op.apply (scheduleResetRetry now).1)).2 =
            resetCommitPending (between.foldl Op.apply (scheduleResetRetry now).1) ∧
          ((∀ op ∈ between, op = .scheduleResetRetry) →
            (finishResetRetry (between.foldl Op.apply (scheduleResetRetry now).1)).2 = true)) ∧
    ((finishResetRetry now).2 = false →
      (scheduleResetRetry (finishResetRetry now).1).2 =
        resetCommitPending (finishResetRetry now).1) := by
  have hscheduled : now.resetRetryScheduled = true := by
    have hpending : resetCommitPending entry = true := by
      rw [scheduleResetRetry_result] at hstarted
      exact (Bool.and_eq_true_iff.mp hstarted).1
    have hstart : (scheduleResetRetry entry).1.resetRetryScheduled = true := by
      rw [scheduleResetRetry_scheduled, hpending, Bool.or_true]
    rw [← hnow]
    exact scheduled_run hstart hspan
  refine ⟨?_, ?_, ?_⟩
  · rw [scheduleResetRetry_result, hscheduled, Bool.not_true, Bool.and_false]
  · intro hpending between hno
    have hrequested : (scheduleResetRetry now).1.resetRetryRequested = true := by
      rw [scheduleResetRetry_requested, hpending, hscheduled]
      exact Bool.or_true _
    have hresult : (finishResetRetry (between.foldl Op.apply (scheduleResetRetry now).1)).2 =
        resetCommitPending (between.foldl Op.apply (scheduleResetRetry now).1) := by
      rw [finishResetRetry_result, requested_run hrequested hno, Bool.and_true]
    refine ⟨hresult, ?_⟩
    intro hall
    rw [hresult]
    exact pending_schedules ((resetCommitPending_scheduleResetRetry now).trans hpending) hall
  · intro hstop
    rw [scheduleResetRetry_result, finishResetRetry_scheduled, hstop, Bool.and_false,
      Bool.not_false, Bool.and_true]

def acknowledgedReset : List Op := [.reserveReset "claude-code" "/clear" 0, .acknowledgeReset]

/-- The second request is refused and makes the worker go round again. -/
theorem second_request_restarts :
    let entry := acknowledgedReset.foldl Op.apply (issued "claude-code" "g" (some "old"))
    let worker := (scheduleResetRetry entry).1
    (scheduleResetRetry entry).2 = true ∧ (scheduleResetRetry worker).2 = false ∧
      (finishResetRetry (scheduleResetRetry worker).1).2 = true := by
  have h := reset_retry_single_flight
    (acknowledgedReset.foldl Op.apply (issued "claude-code" "g" (some "old")))
    (by decide) [] trivial _ rfl
  refine ⟨by decide, h.1, ?_⟩
  exact (h.2.1 (by decide) [] (by intro op hop; cases hop)).2 (by intro op hop; cases hop)

end Orkworksd.PromptAuthority
