import Mathlib.Data.List.Basic

/- The workspace switch coordinator of the desktop app
   (`electron/workspaceSwitchCoordinator.ts`): operations on the one workspace runtime
   are put on a promise queue, and `markUnresolved` may report a failed cleanup between
   any two awaits.

   The closure's variables are a state record. An operation runs from one await to the
   next in one step; `Await` says where it waits and holds its local variables, and the
   `await` of another async function is a point of its own, at which the function has
   returned and its caller not gone on. A callback's outcome is the label of the step
   that goes on with it, and so is the answer `validateDestination` would give there. The
   synchronous notifications return and do not call back. Every action of the
   coordinator is logged with the variables it was taken in. -/
namespace Orkworksd.SwitchCoordinator

inductive InstanceState where
  | picker
  | opening
  | ready
  | closing
  | unresolved
  deriving DecidableEq, Repr

inductive FailureCode where
  | invalidDestination
  | cleanupFailed
  | cleanupTimeout
  | destinationConflict
  | readinessFailed
  | restorationFailed
  | quitFailed
  deriving DecidableEq, Repr

structure Failure where
  code : FailureCode
  message : String
  deriving DecidableEq, Repr

/-- A thrown value: a `WorkspaceSwitchError`, another `Error` with its `code` property, or
anything else. -/
inductive Thrown where
  | switchError (code : FailureCode) (message : String)
  | error (code : Option String) (message : String)
  | other
  deriving DecidableEq, Repr

def errorMessage : Thrown → String
  | .switchError _ message => message
  | .error _ message => message
  | .other => "Workspace switch failed"

def failureFrom (value : Thrown) (fallbackCode : FailureCode) : Failure :=
  match value with
  | .switchError code message => { code := code, message := message }
  | .error code message =>
    if code = some "cleanup_timeout" then { code := .cleanupTimeout, message := message }
    else { code := fallbackCode, message := message }
  | .other => { code := fallbackCode, message := errorMessage .other }

structure Runtime (W : Type) where
  workspace : W
  port : Nat
  deriving DecidableEq, Repr

inductive Event (W D : Type) where
  | picker (generation : Nat) (failure : Option Failure)
  | opening (generation : Nat) (path : String)
  | closing (generation : Nat) (path : String)
  | ready (generation : Nat) (path : String) (workspace : W) (port : Nat)
      (historyDiagnostic : Option D)
  | unresolved (generation : Nat) (failure : Failure)
  deriving DecidableEq, Repr

/-- What an operation's promise settles with; `updated` stands for the value of the update. -/
inductive Result (W D : Type) where
  | ready (generation : Nat) (path : String) (workspace : W) (port : Nat)
      (historyDiagnostic : Option D)
  | failed (state : InstanceState) (generation : Nat) (failure : Failure)
  | closed (generation : Nat)
  | cancelled
  | updated
  | threw (value : Thrown)
  deriving DecidableEq, Repr

/-- What the coordinator does to the outside, and the callbacks that resolved. -/
inductive Action (W D : Type) where
  | publish (event : Event W D)
  | setWorkspacePath (path : Option String)
  | onCloseAdmission
  | startRuntime (path : String) (generation : Nat)
  | runtimeStarted (generation : Nat)
  | runtimeClosed
  | runtimeCleaned
  | finished (result : Result W D)
  deriving DecidableEq, Repr

/-- An action, and the variables it was taken in. -/
structure Entry (W D : Type) where
  action : Action W D
  generation : Nat
  currentWorkspacePath : Option String
  attemptedRuntimeCleanupFailure : Option Failure
  deriving DecidableEq, Repr

inductive Operation where
  | switchWorkspace (path : String)
  | pickWorkspace
  | retry
  | runUpdate
  | close
  | quit
  deriving DecidableEq, Repr

/-- Who awaits `closeCurrent`. -/
inductive CloseFor where
  | switching (path : String)
  | closing (quitting : Bool)
  | updating (previousWorkspacePath : String)
  deriving DecidableEq, Repr

/-- Why an attempted runtime is cleaned up: `startRuntime` failed, the attempt was
superseded while it ran, or it was stale once the history had been written. -/
inductive CleanupFor where
  | failed (failure : Failure)
  | superseded
  | stale (failure : Failure)
  deriving DecidableEq, Repr

/-- The await an operation is at. -/
inductive Await (W : Type) where
  | selecting
  | closeCurrentRuntime (caller : CloseFor) (nextGeneration : Nat)
  | closeCurrent (caller : CloseFor) (nextGeneration : Nat) (failure : Option Failure)
  | startRuntime (path : String) (nextGeneration : Nat)
  | cleanupAttemptedRuntime (nextGeneration : Nat) (reason : CleanupFor)
  | rememberWorkspace (path : String) (nextGeneration : Nat) (runtime : Runtime W)
  | retryCleanup
  | update (previousWorkspacePath : Option String)
  | closeInternal (nextGeneration : Nat) (failure : Option Failure)
  | onQuit (generation : Nat)
  deriving DecidableEq, Repr

/-- How an awaited promise settles. -/
inductive Outcome (W D : Type) where
  | resolved
  | rejected (value : Thrown)
  | started (runtime : Runtime W)
  | remembered (historyDiagnostic : Option D)
  | selected (path : Option String)
  deriving DecidableEq, Repr

structure Coordinator (W D : Type) where
  state : InstanceState
  currentWorkspacePath : Option String
  lastDestination : Option String
  attemptedRuntimeCleanupFailure : Option Failure
  generation : Nat
  /-- The operations on the promise queue that have not started. -/
  queue : List Operation
  running : Option (Await W)
  /-- The error of an update whose workspace is being restored. -/
  updateError : Option Thrown
  /-- The actions so far, newest first. -/
  log : List (Entry W D)
  deriving DecidableEq, Repr

/-- A path the source's truth tests let pass. -/
def truthy (path : Option String) : Option String := path.filter (fun p => p ≠ "")

def supersededFailure : Failure where
  code := .restorationFailed
  message := "Workspace opening was superseded before readiness was published."

def Event.state {W D : Type} : Event W D → InstanceState
  | .picker _ _ => .picker
  | .opening _ _ => .opening
  | .closing _ _ => .closing
  | .ready _ _ _ _ _ => .ready
  | .unresolved _ _ => .unresolved

def Event.generation {W D : Type} : Event W D → Nat
  | .picker g _ => g
  | .opening g _ => g
  | .closing g _ => g
  | .ready g _ _ _ _ => g
  | .unresolved g _ => g

variable {W D : Type}

def create (initialWorkspacePath : Option String) : Coordinator W D where
  state := if (truthy initialWorkspacePath).isSome then .ready else .picker
  currentWorkspacePath := initialWorkspacePath
  lastDestination := initialWorkspacePath
  attemptedRuntimeCleanupFailure := none
  generation := 0
  queue := []
  running := none
  updateError := none
  log := []

/-- A failed restore replaces the error of the update, a successful one rethrows it. -/
def rethrow (error : Thrown) : Result W D → Result W D
  | .failed _ _ failure =>
    .threw (.switchError failure.code (errorMessage error ++ "; " ++ failure.message))
  | _ => .threw error

namespace Coordinator

def emit (c : Coordinator W D) (action : Action W D) : Coordinator W D :=
  { c with log :=
      { action := action
        generation := c.generation
        currentWorkspacePath := c.currentWorkspacePath
        attemptedRuntimeCleanupFailure := c.attemptedRuntimeCleanupFailure } :: c.log }

def publish (c : Coordinator W D) (event : Event W D) : Coordinator W D :=
  { c with state := event.state }.emit (.publish event)

def await (c : Coordinator W D) (point : Await W) : Coordinator W D :=
  { c with running := some point }

/-- The operation is over: the next one on the queue may start. -/
def finish (c : Coordinator W D) (result : Result W D) : Coordinator W D :=
  { c.emit (.finished (match c.updateError with
      | none => result
      | some error => rethrow error result)) with
    running := none
    updateError := none }

/-- `closeCurrent` up to its await. -/
def closeCurrent (c : Coordinator W D) (caller : CloseFor) (nextGeneration : Nat) :
    Coordinator W D :=
  match truthy c.currentWorkspacePath with
  | none => c.await (.closeCurrent caller nextGeneration none)
  | some path =>
    ((c.publish (.closing nextGeneration path)).emit .onCloseAdmission).await
      (.closeCurrentRuntime caller nextGeneration)

/-- `closeCurrentRuntime()` rejected. -/
def closeFailed (c : Coordinator W D) (caller : CloseFor) (nextGeneration : Nat)
    (error : Thrown) : Coordinator W D :=
  let failure := failureFrom error .cleanupFailed
  (c.publish (.unresolved nextGeneration failure)).await
    (.closeCurrent caller nextGeneration (some failure))

/-- `closeCurrentRuntime()` resolved. -/
def closeSucceeded (c : Coordinator W D) (caller : CloseFor) (nextGeneration : Nat) :
    Coordinator W D :=
  let c := { c.emit .runtimeClosed with currentWorkspacePath := none }
  ((c.emit (.setWorkspacePath none)).publish (.picker nextGeneration none)).await
    (.closeCurrent caller nextGeneration none)

/-- `switchWorkspaceInternal` up to its first await. -/
def switchWorkspaceInternal (c : Coordinator W D) (validateDestination : String → Option String)
    (path : String) : Coordinator W D :=
  match c.attemptedRuntimeCleanupFailure with
  | some failure => c.finish (.failed .unresolved c.generation failure)
  | none =>
    match truthy (validateDestination path) with
    | none => c.finish (.failed c.state c.generation
        { code := .invalidDestination
          message := "The selected workspace is not an accessible directory." })
    | some validatedPath =>
      { c with
        generation := c.generation + 1
        lastDestination := some validatedPath }.closeCurrent (.switching validatedPath)
          (c.generation + 1)

/-- `closeInternal` has returned: `close` is over, `quit` goes on a tick later. -/
def closeReturned (c : Coordinator W D) (quitting : Bool) (nextGeneration : Nat)
    (failure : Option Failure) : Coordinator W D :=
  if quitting then c.await (.closeInternal nextGeneration failure)
  else c.finish (match failure with
    | none => .closed nextGeneration
    | some failure => .failed .unresolved nextGeneration failure)

/-- `closeInternal` up to its await. -/
def closeInternal (c : Coordinator W D) (quitting : Bool) : Coordinator W D :=
  let nextGeneration := c.generation + 1
  let c := { c with generation := nextGeneration }
  match c.attemptedRuntimeCleanupFailure with
  | some failure =>
    (c.publish (.unresolved nextGeneration failure)).closeReturned quitting nextGeneration
      (some failure)
  | none =>
    if (truthy c.currentWorkspacePath).isNone then
      (c.publish (.picker nextGeneration none)).closeReturned quitting nextGeneration none
    else c.closeCurrent (.closing quitting) nextGeneration

/-- The end of `retry`, once no cleanup failure is left. -/
def retryDestination (c : Coordinator W D) (validateDestination : String → Option String) :
    Coordinator W D :=
  match truthy c.lastDestination with
  | none => c.finish (.failed .picker c.generation
      { code := .invalidDestination, message := "Choose a workspace before retrying." })
  | some path => c.switchWorkspaceInternal validateDestination path

def runUpdate (c : Coordinator W D) : Coordinator W D :=
  match c.attemptedRuntimeCleanupFailure with
  | some failure => c.finish (.threw (.switchError failure.code failure.message))
  | none =>
    match truthy c.currentWorkspacePath with
    | none => c.await (.update c.currentWorkspacePath)
    | some previous =>
      { c with generation := c.generation + 1 }.closeCurrent (.updating previous) (c.generation + 1)

/-- The body of an operation up to its first await. -/
def start (c : Coordinator W D) (validateDestination : String → Option String) :
    Operation → Coordinator W D
  | .switchWorkspace path => c.switchWorkspaceInternal validateDestination path
  | .pickWorkspace => c.await .selecting
  | .retry =>
    if c.attemptedRuntimeCleanupFailure.isSome then c.await .retryCleanup
    else c.retryDestination validateDestination
  | .runUpdate => c.runUpdate
  | .close => c.closeInternal false
  | .quit => c.closeInternal true

/-- The caller goes on after `await closeCurrent(..)`. -/
def afterClose (c : Coordinator W D) (caller : CloseFor) (nextGeneration : Nat)
    (failure : Option Failure) : Coordinator W D :=
  match caller, failure with
  | .switching _, some failure => c.finish (.failed .unresolved nextGeneration failure)
  | .switching path, none =>
    ((c.publish (.opening nextGeneration path)).emit (.startRuntime path nextGeneration)).await
      (.startRuntime path nextGeneration)
  | .closing quitting, failure => c.closeReturned quitting nextGeneration failure
  | .updating _, some failure =>
    c.finish (.threw (.switchError failure.code failure.message))
  | .updating previous, none => c.await (.update (some previous))

/-- `startRuntime(..)` resolved. -/
def runtimeStarted (c : Coordinator W D) (path : String) (nextGeneration : Nat)
    (runtime : Runtime W) : Coordinator W D :=
  let c := c.emit (.runtimeStarted nextGeneration)
  if nextGeneration ≠ c.generation then
    c.await (.cleanupAttemptedRuntime nextGeneration .superseded)
  else c.await (.rememberWorkspace path nextGeneration runtime)

/-- `cleanupAttemptedRuntime()` of an attempt rejected. -/
def cleanupFailed (c : Coordinator W D) (nextGeneration : Nat) (error : Thrown) :
    Coordinator W D :=
  let failure := failureFrom error .cleanupFailed
  let c := { c with attemptedRuntimeCleanupFailure := some failure }
  (c.publish (.unresolved nextGeneration failure)).finish
    (.failed .unresolved nextGeneration failure)

/-- `cleanupAttemptedRuntime()` of an attempt resolved. -/
def cleanupSucceeded (c : Coordinator W D) (nextGeneration : Nat) (reason : CleanupFor) :
    Coordinator W D :=
  let c := c.emit .runtimeCleaned
  match c.attemptedRuntimeCleanupFailure with
  | some failure =>
    (c.publish (.unresolved c.generation failure)).finish (.failed .unresolved c.generation failure)
  | none =>
    match reason with
    | .failed failure =>
      (c.publish (.picker nextGeneration (some failure))).finish
        (.failed .picker nextGeneration failure)
    | .superseded => c.finish (.failed .picker nextGeneration supersededFailure)
    | .stale failure => c.finish (.failed .picker nextGeneration failure)

/-- The history has been written, or failed to be. -/
def remembered (c : Coordinator W D) (path : String) (nextGeneration : Nat)
    (runtime : Runtime W) (historyDiagnostic : Option D) : Coordinator W D :=
  if nextGeneration ≠ c.generation || c.attemptedRuntimeCleanupFailure.isSome then
    c.await (.cleanupAttemptedRuntime nextGeneration
      (.stale (c.attemptedRuntimeCleanupFailure.getD supersededFailure)))
  else
    let c := { c with currentWorkspacePath := some path }.emit (.setWorkspacePath (some path))
    (c.publish (.ready nextGeneration path runtime.workspace runtime.port
      historyDiagnostic)).finish
        (.ready nextGeneration path runtime.workspace runtime.port historyDiagnostic)

/-- `cleanupAttemptedRuntime()` of `retry` rejected. -/
def retryFailed (c : Coordinator W D) (error : Thrown) : Coordinator W D :=
  let failure := failureFrom error .cleanupFailed
  let c := { c with attemptedRuntimeCleanupFailure := some failure }
  (c.publish (.unresolved c.generation failure)).finish (.failed .unresolved c.generation failure)

/-- `cleanupAttemptedRuntime()` of `retry` resolved. -/
def retrySucceeded (c : Coordinator W D) (validateDestination : String → Option String) :
    Coordinator W D :=
  let c := { c.emit .runtimeCleaned with attemptedRuntimeCleanupFailure := none }
  (c.publish (.picker c.generation none)).retryDestination validateDestination

/-- The update failed: the workspace that was open is restored. -/
def updateFailed (c : Coordinator W D) (previous : Option String) (error : Thrown)
    (validateDestination : String → Option String) : Coordinator W D :=
  match truthy previous, c.attemptedRuntimeCleanupFailure with
  | some path, none =>
    { c with updateError := some error }.switchWorkspaceInternal validateDestination path
  | _, _ => c.finish (.threw error)

/-- `quit` goes on after `closeInternal`. -/
def afterCloseInternal (c : Coordinator W D) (nextGeneration : Nat) (failure : Option Failure) :
    Coordinator W D :=
  match failure with
  | some failure => c.finish (.failed .unresolved nextGeneration failure)
  | none => c.await (.onQuit nextGeneration)

def quitFailed (c : Coordinator W D) (generation : Nat) (error : Thrown) : Coordinator W D :=
  let failure := failureFrom error .quitFailed
  (c.publish (.unresolved generation failure)).finish (.failed .unresolved generation failure)

/-- The operation goes on with the outcome of what it awaits; the outcomes that an awaited
promise cannot have give no step. -/
def resume (c : Coordinator W D) (validateDestination : String → Option String) :
    Await W → Outcome W D → Option (Coordinator W D)
  | .selecting, .selected none => some (c.finish .cancelled)
  | .selecting, .selected (some path) =>
    some (c.switchWorkspaceInternal validateDestination path)
  | .selecting, .rejected error => some (c.finish (.threw error))
  | .closeCurrentRuntime caller g, .resolved => some (c.closeSucceeded caller g)
  | .closeCurrentRuntime caller g, .rejected error => some (c.closeFailed caller g error)
  | .closeCurrent caller g failure, .resolved => some (c.afterClose caller g failure)
  | .startRuntime path g, .started runtime => some (c.runtimeStarted path g runtime)
  | .startRuntime _ g, .rejected error =>
    some (c.await (.cleanupAttemptedRuntime g (.failed (failureFrom error .restorationFailed))))
  | .cleanupAttemptedRuntime g reason, .resolved => some (c.cleanupSucceeded g reason)
  | .cleanupAttemptedRuntime g _, .rejected error => some (c.cleanupFailed g error)
  | .rememberWorkspace path g runtime, .remembered diagnostic =>
    some (c.remembered path g runtime diagnostic)
  | .rememberWorkspace path g runtime, .rejected _ => some (c.remembered path g runtime none)
  | .retryCleanup, .resolved => some (c.retrySucceeded validateDestination)
  | .retryCleanup, .rejected error => some (c.retryFailed error)
  | .update _, .resolved => some (c.finish .updated)
  | .update previous, .rejected error =>
    some (c.updateFailed previous error validateDestination)
  | .closeInternal g failure, .resolved => some (c.afterCloseInternal g failure)
  | .onQuit g, .resolved => some (c.finish (.closed g))
  | .onQuit g, .rejected error => some (c.quitFailed g error)
  | _, _ => none

def markUnresolved (c : Coordinator W D) (failure : Failure) : Coordinator W D :=
  let c := { c with
    generation := c.generation + 1
    attemptedRuntimeCleanupFailure := some failure }
  c.publish (.unresolved c.generation failure)

end Coordinator

/-! ## Steps -/

/-- A call of a method, or progress of the operation on the queue. -/
inductive Label (W D : Type) where
  | call (operation : Operation)
  | markUnresolved (failure : Failure)
  | start (validateDestination : String → Option String)
  | settle (outcome : Outcome W D) (validateDestination : String → Option String)

def Coordinator.step (c : Coordinator W D) : Label W D → Option (Coordinator W D)
  | .call operation => some { c with queue := c.queue ++ [operation] }
  | .markUnresolved failure => some (c.markUnresolved failure)
  | .start validateDestination =>
    match c.running, c.queue with
    | none, operation :: queue => some ({ c with queue := queue }.start validateDestination operation)
    | _, _ => none
  | .settle outcome validateDestination =>
    match c.running with
    | none => none
    | some point => c.resume validateDestination point outcome

end Orkworksd.SwitchCoordinator
