import Mathlib.Algebra.Order.Ring.Int
import Orkworksd.Lib.Run

/- The process-local prompt authority of Claude Code and GitHub Copilot CLI
   sessions (`runtime/prompt_authority.rs`). A session's authority binds at most
   one native session identity; `/clear` and `/new` reserve a reset that retires
   the bound identity and holds a candidate for the next one until the reset is
   acknowledged and completed.

   Every function below is one method of `PromptAuthorityRegistry` (or its body
   after `get_mut`), under the source's name. The registry's `HashMap` is a
   partial function, its mutex makes each method one step, `chrono::Utc::now()`
   is an argument, and a `DateTime` is a number of nanoseconds. The instance
   pointer of an authority is left out: only `with_snapshot` reads it. -/
namespace Orkworksd.PromptAuthority

abbrev DateTime := Int

inductive BindResult where
  | bound
  | unchanged
  | held
  | rejected
  deriving DecidableEq, Repr

structure QueuedPromptWait where
  notificationType : String
  observedAt : Option DateTime
  receiptSequence : Nat
  committedInputSequence : Nat
  cwd : Option String
  deriving DecidableEq, Repr

/-- A pending reset. `superseded` is the reservation it replaced, kept so that
a cancel can restore it. -/
structure ResetReservation where
  acknowledged : Bool
  epochCommitted : Bool
  promptTupleClearApplied : Bool
  candidateNativeSessionId : Option String
  retiredNativeSessionId : Option String
  resetSubmissionInputSequence : Option Nat
  superseded : Option ResetReservation
  createdAt : DateTime
  queuedPromptWait : Option QueuedPromptWait

structure ResetCommit where
  nativeSessionId : Option String
  queuedPromptWait : Option QueuedPromptWait
  resetSubmissionInputSequence : Option Nat
  deriving DecidableEq, Repr

structure SessionAuthority where
  harnessId : String
  generation : String
  nativeSessionId : Option String
  revoked : Bool
  active : Bool
  epoch : Nat
  reset : Option ResetReservation
  resetRetryScheduled : Bool
  resetRetryRequested : Bool

abbrev Registry := String → Option SessionAuthority

/-- `u64::saturating_add(1)`. -/
def saturatingSucc (n : Nat) : Nat := min (n + 1) (2 ^ 64 - 1)

/-! ## The body of each method, on the session's entry -/

/-- The entry `issue_with_native_id` inserts. -/
def issued (harnessId generation : String) (nativeSessionId : Option String) :
    SessionAuthority where
  harnessId := harnessId
  generation := generation
  nativeSessionId := nativeSessionId
  revoked := false
  active := false
  epoch := 0
  reset := none
  resetRetryScheduled := false
  resetRetryRequested := false

/-- Copilot reports a candidate only when it was observed after the reset. -/
def observedTooEarly (entry : SessionAuthority) (reset : ResetReservation)
    (observedAt : Option DateTime) : Bool :=
  entry.harnessId == "copilot" && observedAt.all (fun timestamp => timestamp ≤ reset.createdAt)

def holdCandidate (entry : SessionAuthority) (reset : ResetReservation) (id : String) :
    SessionAuthority :=
  { entry with reset := some { reset with candidateNativeSessionId := some id } }

def registerNativeId (entry : SessionAuthority) (harnessId generation nativeSessionId : String)
    (lifecycleReset : Bool) (observedAt : Option DateTime) : SessionAuthority × BindResult :=
  if entry.revoked || entry.harnessId != harnessId || entry.generation != generation
      || nativeSessionId.isEmpty then
    (entry, .rejected)
  else match entry.nativeSessionId with
  | none =>
    match entry.reset with
    | none => ({ entry with nativeSessionId := some nativeSessionId }, .bound)
    | some reset =>
      if reset.retiredNativeSessionId = some nativeSessionId then (entry, .rejected)
      else if reset.candidateNativeSessionId = some nativeSessionId then (entry, .held)
      else if !lifecycleReset || observedTooEarly entry reset observedAt then (entry, .rejected)
      else match reset.candidateNativeSessionId with
        | some _ => (entry, .rejected)
        | none => (holdCandidate entry reset nativeSessionId, .held)
  | some current =>
    if current = nativeSessionId then
      match entry.reset with
      | none => (entry, .unchanged)
      | some reset =>
        if reset.epochCommitted && reset.candidateNativeSessionId = some nativeSessionId then
          (entry, .unchanged)
        else if !reset.acknowledged
            && reset.candidateNativeSessionId = some nativeSessionId then (entry, .held)
        else (entry, .rejected)
    else match entry.reset with
      | none => (entry, .rejected)
      | some reset =>
        if reset.candidateNativeSessionId = some nativeSessionId then (entry, .held)
        else if !lifecycleReset then (entry, .rejected)
        else if observedTooEarly entry reset observedAt then (entry, .rejected)
        else match reset.candidateNativeSessionId with
          | some _ => (entry, .rejected)
          | none => (holdCandidate entry reset nativeSessionId, .held)

def acceptedCommand (harnessId command : String) : Bool :=
  if harnessId = "claude-code" then command == "/clear"
  else if harnessId = "copilot" then command == "/clear" || command == "/new"
  else false

/-- A reservation that another reset may supersede: acknowledged, committed and
still without a candidate. -/
def ResetReservation.candidateFree (reset : ResetReservation) : Bool :=
  reset.acknowledged && reset.epochCommitted && reset.candidateNativeSessionId.isNone

def reserveReset (entry : SessionAuthority) (harnessId command : String) (now : DateTime) :
    SessionAuthority × Bool :=
  let superseded := entry.reset.filter ResetReservation.candidateFree
  if entry.revoked || entry.harnessId != harnessId
      || (entry.nativeSessionId.isNone && superseded.isNone)
      || !acceptedCommand harnessId command
      || entry.reset.any (fun reset => !reset.candidateFree) then
    (entry, false)
  else
    ({ entry with reset := some {
        acknowledged := false
        epochCommitted := false
        promptTupleClearApplied := false
        candidateNativeSessionId := none
        retiredNativeSessionId :=
          entry.nativeSessionId <|> superseded.bind (·.retiredNativeSessionId)
        resetSubmissionInputSequence := none
        -- only the immediately previous reservation is kept
        superseded := superseded.map (fun reset => { reset with superseded := none })
        createdAt := now
        queuedPromptWait := none } }, true)

def acknowledgeReset (entry : SessionAuthority) : SessionAuthority × Option (Option String) :=
  if entry.revoked then (entry, none)
  else match entry.reset with
    | none => (entry, none)
    | some reset =>
      ({ entry with reset := some { reset with acknowledged := true } },
        some reset.candidateNativeSessionId)

def completeReset (entry : SessionAuthority) : SessionAuthority × Option ResetCommit :=
  match entry.reset with
  | none => (entry, none)
  | some reset =>
    if !reset.acknowledged then (entry, none)
    else match reset.candidateNativeSessionId with
      | none =>
        let commit : ResetCommit :=
          { nativeSessionId := none, queuedPromptWait := none,
            resetSubmissionInputSequence := reset.resetSubmissionInputSequence }
        if reset.epochCommitted then (entry, some commit)
        else
          ({ entry with
              reset := some { reset with epochCommitted := true }
              epoch := saturatingSucc entry.epoch
              nativeSessionId := none
              active := false }, some commit)
      | some candidate =>
        ({ entry with
            nativeSessionId := some candidate
            epoch := if reset.epochCommitted then entry.epoch else saturatingSucc entry.epoch
            reset := if reset.queuedPromptWait.isNone then none
              else some { reset with epochCommitted := true }
            active := false },
          some { nativeSessionId := some candidate
                 queuedPromptWait := reset.queuedPromptWait
                 resetSubmissionInputSequence := reset.resetSubmissionInputSequence })

def markResetPromptTupleClearApplied (entry : SessionAuthority) : SessionAuthority × Bool :=
  match entry.reset with
  | none => (entry, false)
  | some reset =>
    if !reset.acknowledged then (entry, false)
    else ({ entry with reset := some { reset with promptTupleClearApplied := true } }, true)

def noteResetSubmissionInputSequence (entry : SessionAuthority) (inputSequence : Nat) :
    SessionAuthority :=
  { entry with
      reset := entry.reset.map fun reset =>
        { reset with resetSubmissionInputSequence := some inputSequence } }

def deactivateForReset (entry : SessionAuthority) : SessionAuthority :=
  if !entry.revoked && entry.reset.isSome then { entry with active := false } else entry

def finishQueuedPromptWait (entry : SessionAuthority) (receiptSequence : Nat) :
    SessionAuthority × Bool :=
  match entry.reset with
  | none => (entry, false)
  | some reset =>
    if !reset.epochCommitted
        || !reset.queuedPromptWait.any (fun queued => queued.receiptSequence == receiptSequence)
    then (entry, false)
    else ({ entry with reset := none }, true)

/-- Whether a wait observed at `observedAt` may replace the queued one. -/
def laterThanQueued (previous : QueuedPromptWait) (observedAt : Option DateTime)
    (receiptSequence : Nat) : Bool :=
  match previous.observedAt, observedAt with
  | some before, some current =>
    before < current || (current == before && previous.receiptSequence < receiptSequence)
  | none, none => previous.receiptSequence < receiptSequence
  | _, _ => false

def queuePromptWait (entry : SessionAuthority)
    (harnessId generation nativeSessionId notificationType : String)
    (observedAt : Option DateTime) (receiptSequence committedInputSequence : Nat)
    (cwd : Option String) : SessionAuthority × Bool :=
  if entry.revoked || entry.harnessId != harnessId || entry.generation != generation then
    (entry, false)
  else match entry.reset with
    | none => (entry, false)
    | some reset =>
      if reset.candidateNativeSessionId != some nativeSessionId then (entry, false)
      else if reset.queuedPromptWait.all
          (fun previous => laterThanQueued previous observedAt receiptSequence) then
        ({ entry with reset := some { reset with queuedPromptWait := some {
            notificationType := notificationType
            observedAt := observedAt
            receiptSequence := receiptSequence
            committedInputSequence := committedInputSequence
            cwd := cwd.filter (fun cwd => !cwd.isEmpty) } } }, true)
      else (entry, false)

def cancelReset (entry : SessionAuthority) : SessionAuthority :=
  { entry with reset := entry.reset.bind (·.superseded) }

def nativeIdMatches (entry : SessionAuthority) (harnessId generation nativeSessionId : String) :
    Bool :=
  !entry.revoked && entry.harnessId == harnessId && entry.generation == generation
    && entry.reset.all (fun reset =>
      reset.epochCommitted && reset.candidateNativeSessionId == some nativeSessionId)
    && entry.nativeSessionId == some nativeSessionId

def activate (entry : SessionAuthority) (harnessId generation nativeSessionId : String) :
    SessionAuthority × Bool :=
  if entry.revoked || entry.harnessId != harnessId || entry.generation != generation
      || entry.nativeSessionId != some nativeSessionId then
    (entry, false)
  else ({ entry with active := true }, true)

def resetCommitPending (entry : SessionAuthority) : Bool :=
  entry.reset.any (fun reset =>
    reset.acknowledged && (!reset.epochCommitted || reset.queuedPromptWait.isSome
      || reset.candidateNativeSessionId.any
        (fun candidate => entry.nativeSessionId != some candidate)))

def scheduleResetRetry (entry : SessionAuthority) : SessionAuthority × Bool :=
  if !resetCommitPending entry then (entry, false)
  else if entry.resetRetryScheduled then ({ entry with resetRetryRequested := true }, false)
  else ({ entry with resetRetryScheduled := true }, true)

def finishResetRetry (entry : SessionAuthority) : SessionAuthority × Bool :=
  if resetCommitPending entry && entry.resetRetryRequested then
    ({ entry with resetRetryRequested := false }, true)
  else ({ entry with resetRetryScheduled := false, resetRetryRequested := false }, false)

def revoke (entry : SessionAuthority) (generation : String) : SessionAuthority :=
  if entry.generation = generation then
    { entry with revoked := true, active := false, reset := none }
  else entry

/-! ## The registry -/

/-- One call of a registry method on the authority of a session. -/
inductive Op where
  | registerNativeId (harnessId generation nativeSessionId : String) (lifecycleReset : Bool)
      (observedAt : Option DateTime)
  | reserveReset (harnessId command : String) (now : DateTime)
  | acknowledgeReset
  | completeReset
  | markResetPromptTupleClearApplied
  | noteResetSubmissionInputSequence (inputSequence : Nat)
  | deactivateForReset
  | finishQueuedPromptWait (receiptSequence : Nat)
  | queuePromptWait (harnessId generation nativeSessionId notificationType : String)
      (observedAt : Option DateTime) (receiptSequence committedInputSequence : Nat)
      (cwd : Option String)
  | cancelReset
  | activate (harnessId generation nativeSessionId : String)
  | scheduleResetRetry
  | finishResetRetry
  | revoke (generation : String)

/-- The entry after a call. -/
def Op.apply (entry : SessionAuthority) : Op → SessionAuthority
  | .registerNativeId harnessId generation id lifecycleReset observedAt =>
    (PromptAuthority.registerNativeId entry harnessId generation id lifecycleReset observedAt).1
  | .reserveReset harnessId command now =>
    (PromptAuthority.reserveReset entry harnessId command now).1
  | .acknowledgeReset => (PromptAuthority.acknowledgeReset entry).1
  | .completeReset => (PromptAuthority.completeReset entry).1
  | .markResetPromptTupleClearApplied =>
    (PromptAuthority.markResetPromptTupleClearApplied entry).1
  | .noteResetSubmissionInputSequence inputSequence =>
    PromptAuthority.noteResetSubmissionInputSequence entry inputSequence
  | .deactivateForReset => PromptAuthority.deactivateForReset entry
  | .finishQueuedPromptWait receiptSequence =>
    (PromptAuthority.finishQueuedPromptWait entry receiptSequence).1
  | .queuePromptWait harnessId generation id notificationType observedAt receipt committed cwd =>
    (PromptAuthority.queuePromptWait entry harnessId generation id notificationType observedAt
      receipt committed cwd).1
  | .cancelReset => PromptAuthority.cancelReset entry
  | .activate harnessId generation id => (PromptAuthority.activate entry harnessId generation id).1
  | .scheduleResetRetry => (PromptAuthority.scheduleResetRetry entry).1
  | .finishResetRetry => (PromptAuthority.finishResetRetry entry).1
  | .revoke generation => PromptAuthority.revoke entry generation

/-- `cancel_reset` is called only before the reset's acknowledgement. -/
def Op.Admitted (entry : SessionAuthority) : Op → Prop
  | .cancelReset => ∀ reset, entry.reset = some reset → reset.acknowledged = false
  | _ => True

/-- `get_mut(session_id)` followed by the method's body. -/
def Registry.modify (registry : Registry) (sessionId : String)
    (f : SessionAuthority → SessionAuthority) : Registry :=
  Function.update registry sessionId ((registry sessionId).map f)

/-- One admitted call, on any session. -/
def Step (registry : Registry) (call : String × Op) (after : Registry) : Prop :=
  (∀ entry, registry call.1 = some entry → call.2.Admitted entry) ∧
    after = registry.modify call.1 (fun entry => call.2.apply entry)

end Orkworksd.PromptAuthority
