import Mathlib.Algebra.Order.Ring.Int
import Orkworksd.Lib.Run

/- The approval reducer of Codex sessions (`runtime/codex_approval.rs`): hooks,
   native status observations and clock ticks are correlated into two effects,
   `ShowWait` for a permission request that stays open past the grace period and
   `ClearWait` once that exact request is known to be resolved.

   Each function is the method of `ApprovalReducer` under the source's name, with
   `&mut self` as explicit state. An `Instant` is a number of nanoseconds on an
   arbitrary clock, `checked_duration_since` fails when time runs backwards, and
   `records[i]` is read with `[i]?`. The two `cfg(test)` diagnostics fields are
   left out. -/
namespace Orkworksd.CodexApproval

abbrev Instant := Nat

def grace : Nat := 2_000_000_000
def freshness : Nat := 300_000_000
def maxRecords : Nat := 64

structure Fence where
  runtimeGeneration : Nat
  identityRevision : Nat
  turnRevision : Nat
  inputRevision : Nat
  deriving DecidableEq, Repr

/-- The `u64` of a `CandidateId`. -/
abbrev CandidateId := Nat

inductive HookEvent where
  | preToolUse
  | permissionRequest
  | postToolUse
  | stop
  | userPromptSubmit
  deriving DecidableEq, Repr

inductive NativeStatus where
  | active
  | approvalPending
  | userInputPending
  | unavailable
  deriving DecidableEq, Repr

inductive Effect where
  | showWait (candidate : CandidateId) (fence : Fence)
  | clearWait (candidate : CandidateId) (fence : Fence)
  deriving DecidableEq, Repr

structure Observation where
  status : NativeStatus
  startedAt : Instant
  deriving DecidableEq, Repr

structure Candidate where
  id : CandidateId
  eligible : Bool
  sawPendingEdge : Bool
  retired : Bool
  deriving DecidableEq, Repr

structure Record where
  toolId : Option String
  hasPre : Bool
  completed : Bool
  candidate : Option Candidate
  deriving DecidableEq, Repr

structure Wait where
  candidate : CandidateId
  receivedAt : Instant
  shown : Bool
  deriving DecidableEq, Repr

structure ApprovalReducer where
  fence : Fence
  records : List Record
  latestPre : Option Nat
  observation : Option Observation
  lastObservationStart : Option Instant
  clock : Option Instant
  wait : Option Wait
  locked : Bool
  nextCandidate : Nat
  exhausted : Bool
  issued : Option Effect
  pendingClear : Option Effect
  deriving DecidableEq, Repr

def new (fence : Fence) : ApprovalReducer where
  fence := fence
  records := []
  latestPre := none
  observation := none
  lastObservationStart := none
  clock := none
  wait := none
  locked := false
  nextCandidate := 0
  exhausted := false
  issued := none
  pendingClear := none

/-- `lock` takes the eligibility of a record's candidate away. -/
def Record.revoke (record : Record) : Record :=
  { record with candidate := record.candidate.map (fun c => { c with eligible := false }) }

namespace ApprovalReducer

/-! ## Private methods -/

def reset (r : ApprovalReducer) : ApprovalReducer :=
  { r with
    records := []
    latestPre := none
    observation := none
    lastObservationStart := none
    clock := none
    wait := none
    locked := r.exhausted
    issued := none
    pendingClear := none }

def lock (r : ApprovalReducer) : ApprovalReducer :=
  { r with locked := true, pendingClear := none, records := r.records.map Record.revoke }

/-- `if condition { self.lock() }`. -/
def lockIf (r : ApprovalReducer) (condition : Bool) : ApprovalReducer :=
  if condition then r.lock else r

def advanceClock (r : ApprovalReducer) (now : Instant) : ApprovalReducer × Bool :=
  if r.clock.any (fun last => now < last) then ({ r.lock with observation := none }, false)
  else ({ r with clock := some now }, true)

def observationIsFresh (startedAt now : Instant) : Bool :=
  startedAt ≤ now && now - startedAt ≤ freshness

/-- The retained observation is fresh at `now`. -/
def hasFresh (r : ApprovalReducer) (now : Instant) : Bool :=
  r.observation.any (fun o => observationIsFresh o.startedAt now)

/-- The retained observation is a fresh `Active` one. -/
def hasActive (r : ApprovalReducer) (now : Instant) : Bool :=
  r.observation.any (fun o => o.status == .active && observationIsFresh o.startedAt now)

def find (r : ApprovalReducer) (toolId : String) : Option Nat :=
  r.records.findIdx? (fun record => record.toolId == some toolId)

def addRecord (r : ApprovalReducer) (toolId : Option String) (hasPre completed : Bool) :
    ApprovalReducer × Option Nat :=
  if maxRecords ≤ r.records.length then (r.lock, none)
  else
    ({ r with records := r.records ++
        [{ toolId := toolId, hasPre := hasPre, completed := completed, candidate := none }] },
      some r.records.length)

def pre (r : ApprovalReducer) (toolId : Option String) : ApprovalReducer :=
  let toolId := toolId.filter (fun id => !id.isEmpty)
  if toolId.any (fun id => (r.find id).isSome) then r
  else
    let r := r.lockIf toolId.isNone
    let r := r.lockIf (r.records.any (fun record => !record.completed))
    let (r, index) := r.addRecord toolId true false
    { r with latestPre := index }

/-- The record a permission request is about; one is added when none is known. -/
def permissionRecord (r : ApprovalReducer) (toolId : Option String) :
    ApprovalReducer × Option Nat :=
  match toolId with
  | some id =>
    if id.isEmpty then r.lock.addRecord none false false
    else match r.find id with
      | some index => (r, some index)
      | none => r.lock.addRecord (some id) false false
  | none =>
    match r.latestPre.filter (fun i => (r.records[i]?).any (fun record =>
        !record.completed && !record.candidate.any (·.retired))) with
    | some index => (r, some index)
    | none =>
      match r.records.findIdx? (fun record => record.toolId.isNone && !record.completed
          && record.candidate.any (fun c => !c.retired)) with
      | some index => (r, some index)
      | none => r.lock.addRecord none false false

/-- `self.records[index].candidate = Some(candidate)`. -/
def setCandidate (r : ApprovalReducer) (index : Option Nat) (candidate : Candidate) :
    ApprovalReducer :=
  match index with
  | none => r
  | some i =>
    { r with records := r.records.modify i (fun record =>
        { record with candidate := some candidate }) }

/-- The second half of `permission`: an open record without a candidate gets one. -/
def openCandidate (r : ApprovalReducer) (index : Option Nat) (now : Instant) : ApprovalReducer :=
  let active := (r.records.filter (fun record => !record.completed)).length
  let chain := index.any (fun i => (r.records[i]?).any (fun record =>
    record.hasPre && record.toolId.isSome))
  let r := r.lockIf (!r.hasActive now || !chain || active != 1 || r.wait.isSome)
  if 2 ^ 64 ≤ r.nextCandidate + 1 then { r with exhausted := true }.lock
  else
    let candidate := r.nextCandidate + 1
    let r := { r with nextCandidate := candidate }
    let r := r.setCandidate index
      { id := candidate, eligible := !r.locked, sawPendingEdge := false, retired := false }
    -- a locked batch can outlive every correlated invocation: an open wait stays
    if r.wait.isNone then
      { r with wait := some { candidate := candidate, receivedAt := now, shown := false } }
    else r

def permission (r : ApprovalReducer) (toolId : Option String) (now : Instant) :
    ApprovalReducer :=
  let (r, index) := r.permissionRecord toolId
  if index.any (fun i => (r.records[i]?).any (fun record =>
      record.completed || record.candidate.isSome)) then
    r.lockIf toolId.isNone
  else r.openCandidate index now

def retire (r : ApprovalReducer) (index : Nat) : ApprovalReducer × Option Effect :=
  match (r.records[index]?).bind (·.candidate) with
  | none => (r, none)
  | some candidate =>
    if candidate.retired then (r, none)
    else
      let r := r.setCandidate (some index) { candidate with retired := true }
      if r.locked || !candidate.eligible then (r, none)
      else match r.wait with
        | none => (r, none)
        | some wait =>
          if wait.candidate != candidate.id then (r, none)
          else if !wait.shown then ({ r with wait := none }, none)
          else
            let effect := Effect.clearWait wait.candidate r.fence
            ({ r with pendingClear := some effect }, some effect)

/-- `self.records[index].completed = true`. -/
def completeRecord (r : ApprovalReducer) (index : Nat) : ApprovalReducer :=
  { r with records := r.records.modify index (fun record => { record with completed := true }) }

def post (r : ApprovalReducer) (toolId : Option String) : ApprovalReducer × Option Effect :=
  match toolId.filter (fun id => !id.isEmpty) with
  | none => (r.lock, none)
  | some id =>
    match r.find id with
    | none => ((r.lock.addRecord (some id) false true).1, none)
    | some index =>
      if (r.records[index]?).any (·.completed) then (r, none)
      else
        let r := r.completeRecord index
        if (r.records[index]?).any (fun record => record.candidate.isNone) then (r, none)
        else r.retire index

def serialCandidate (r : ApprovalReducer) : Option Nat :=
  if r.locked then none
  else r.records.findIdx? (fun record =>
    record.candidate.any (fun c => c.eligible && !c.retired))

def issue (r : ApprovalReducer) (effect : Effect) : ApprovalReducer × List Effect :=
  ({ r with issued := some effect }, [effect])

def displayDue (r : ApprovalReducer) (now : Instant) : ApprovalReducer × List Effect :=
  match r.wait with
  | none => (r, [])
  | some wait =>
    if wait.shown || !(wait.receivedAt ≤ now && grace ≤ now - wait.receivedAt) then (r, [])
    else if !r.locked && r.hasActive now then (r, [])
    else r.issue (.showWait wait.candidate r.fence)

/-! ## Public methods -/

def hook (r : ApprovalReducer) (event : HookEvent) (toolId : Option String) (now : Instant) :
    ApprovalReducer × List Effect :=
  let r := { r with issued := none }
  let r := r.lockIf r.pendingClear.isSome
  match event with
  | .stop => (r.reset, [])
  | .userPromptSubmit => (r.reset, [])
  | .preToolUse => ((r.advanceClock now).1.pre toolId).displayDue now
  | .permissionRequest => ((r.advanceClock now).1.permission toolId now).displayDue now
  | .postToolUse =>
    let r := (r.advanceClock now).1
    let r := r.lockIf (r.wait.isSome && !r.hasFresh now)
    match r.post toolId with
    | (r, some effect) => r.issue effect
    | (r, none) => r.displayDue now

/-- Whether an observation starting at `startedAt` is in order. -/
def orderedStart (r : ApprovalReducer) (status : NativeStatus) (startedAt : Instant) : Bool :=
  r.lastObservationStart.all (fun last =>
    last < startedAt || (startedAt == last && r.observation.any (fun o => o.status == status)))

/-- The candidate at `index` has seen the pending edge. -/
def sawPending (r : ApprovalReducer) (index : Nat) : Bool :=
  ((r.records[index]?).bind (·.candidate)).any (·.sawPendingEdge)

def markPendingEdge (r : ApprovalReducer) (index : Nat) : ApprovalReducer :=
  { r with records := r.records.modify index (fun record =>
      { record with
        candidate := record.candidate.map (fun c => { c with sawPendingEdge := true }) }) }

/-- The `ApprovalPending` arm of `observe`. -/
def observePending (r : ApprovalReducer) (previous : Option NativeStatus)
    (startedAt : Instant) : ApprovalReducer :=
  if r.locked then r
  else
    let canAttribute := r.wait.any (fun w => w.receivedAt ≤ startedAt)
      && previous == some .active
    match r.serialCandidate with
    | some index =>
      if canAttribute then r.markPendingEdge index
      else if r.sawPending index then r
      else r.lock
    | none => r.lock

/-- The `Active` arm of `observe`. -/
def observeActive (r : ApprovalReducer) (previous : Option NativeStatus) :
    ApprovalReducer × Option Effect :=
  if !r.locked && previous == some .approvalPending then
    match r.serialCandidate with
    | some index => if r.sawPending index then r.retire index else (r, none)
    | none => (r, none)
  else (r, none)

/-- `observe` once the observation has been accepted and retained. -/
def observed (r : ApprovalReducer) (previous : Option NativeStatus) (status : NativeStatus)
    (startedAt now : Instant) : ApprovalReducer × List Effect :=
  match status with
  | .approvalPending => (r.observePending previous startedAt).displayDue now
  | .active =>
    match r.observeActive previous with
    | (r, some effect) => r.issue effect
    | (r, none) => r.displayDue now
  | .userInputPending => r.lock.displayDue now
  | .unavailable => { r.lockIf r.wait.isSome with observation := none }.displayDue now

def observe (r : ApprovalReducer) (status : NativeStatus) (completeSingletonRoot : Bool)
    (startedAt now : Instant) : ApprovalReducer × List Effect :=
  let r := { r with issued := none }
  let (r, orderedNow) := r.advanceClock now
  if !orderedNow || !r.orderedStart status startedAt || !observationIsFresh startedAt now
      || !completeSingletonRoot then
    { r.lock with observation := none }.displayDue now
  else
    let previous := r.observation.map (·.status)
    let r := { r with
      lastObservationStart := some startedAt
      observation := some { status := status, startedAt := startedAt } }
    match r.pendingClear with
    | some effect =>
      if status == .active && !r.locked then r.issue effect
      else r.lock.observed previous status startedAt now
    | none => r.observed previous status startedAt now

def tick (r : ApprovalReducer) (now : Instant) : ApprovalReducer × List Effect :=
  let (r, ordered) := r.advanceClock now
  let r := if ordered then r else { r with issued := none }
  let r :=
    if r.wait.isSome && !r.hasFresh now then
      (if r.locked then r else { r with issued := none }).lock
    else r
  match r.pendingClear with
  | some effect => r.issue effect
  | none => r.displayDue now

def invalidate (r : ApprovalReducer) (fence : Fence) : ApprovalReducer :=
  { r.reset with fence := fence }

def disconnected (r : ApprovalReducer) : ApprovalReducer :=
  { r with issued := none, observation := none, lastObservationStart := none }.lockIf r.wait.isSome

def accepts (r : ApprovalReducer) (effect : Effect) : Bool := r.issued == some effect

def acknowledgeShow (r : ApprovalReducer) (effect : Effect) : ApprovalReducer × Bool :=
  if !r.accepts effect then (r, false)
  else match effect with
    | .clearWait _ _ => (r, false)
    | .showWait candidate fence =>
      if fence != r.fence then (r, false)
      else match r.wait.filter (fun wait => wait.candidate == candidate) with
        | none => (r, false)
        | some wait => ({ r with wait := some { wait with shown := true } }, true)

def acknowledgeClear (r : ApprovalReducer) (effect : Effect) : ApprovalReducer × Bool :=
  if !r.accepts effect || r.pendingClear != some effect then (r, false)
  else ({ r with pendingClear := none, wait := none, issued := none }, true)

end ApprovalReducer

/-! ## Steps -/

/-- One call of a public method. -/
inductive Input where
  | hook (event : HookEvent) (toolId : Option String) (now : Instant)
  | observe (status : NativeStatus) (completeSingletonRoot : Bool) (startedAt now : Instant)
  | tick (now : Instant)
  | invalidate (fence : Fence)
  | disconnected
  | acknowledgeShow (effect : Effect)
  | acknowledgeClear (effect : Effect)

/-- The reducer after a call, and the effects the call returned. -/
def ApprovalReducer.apply (r : ApprovalReducer) : Input → ApprovalReducer × List Effect
  | .hook event toolId now => r.hook event toolId now
  | .observe status complete startedAt now => r.observe status complete startedAt now
  | .tick now => r.tick now
  | .invalidate fence => (r.invalidate fence, [])
  | .disconnected => (r.disconnected, [])
  | .acknowledgeShow effect => ((r.acknowledgeShow effect).1, [])
  | .acknowledgeClear effect => ((r.acknowledgeClear effect).1, [])

def Step (r : ApprovalReducer) (input : Input) (after : ApprovalReducer) : Prop :=
  after = (r.apply input).1

/-- The time a call was given. -/
def Input.now : Input → Option Instant
  | .hook _ _ now => some now
  | .observe _ _ _ now => some now
  | .tick now => some now
  | _ => none

def Input.isReset : Input → Prop
  | .hook .stop _ _ => True
  | .hook .userPromptSubmit _ _ => True
  | .invalidate _ => True
  | _ => False

end Orkworksd.CodexApproval
