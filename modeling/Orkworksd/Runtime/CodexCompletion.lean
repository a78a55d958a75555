import Mathlib.Algebra.Order.Ring.Int
import Orkworksd.Lib.Text

/- Serial completion correlation of Codex launches (`runtime/codex_completion.rs`): a
   tracker follows a complete ordered hook stream and offers two effects, `BindWait` for
   a permission request inside exactly one running invocation and `ClearWait` for the
   completion of that invocation.

   Each function is the method of `Tracker` under the source's name, with `&mut self` as
   explicit state; `event` is cut at its three `match` arms. The owner of a candidate is
   the address of the tracker's `Arc`, here a number. `u64` values are naturals with
   `checked_add` written out, and `records[i]` is read with `[i]?`. -/
namespace Orkworksd.CodexCompletion

inductive Hook where
  | submitted
  | pre
  | permission
  | post
  | stop
  deriving DecidableEq, Repr

structure Event where
  generation : Nat
  root : String
  turn : String
  sequence : Nat
  observedMicros : Int
  hook : Hook
  tool : Option String
  invocation : Option String
  deriving DecidableEq, Repr

structure Candidate where
  owner : Nat
  epoch : Nat
  invocation : Nat
  deriving DecidableEq, Repr

inductive Effect where
  | bindWait (candidate : Candidate)
  | clearWait (candidate : Candidate)
  deriving DecidableEq, Repr

structure Invocation where
  id : String
  tool : String
  completed : Bool
  deriving DecidableEq, Repr

structure Tracker where
  generation : Nat
  identity : Nat
  epoch : Option Nat
  root : String
  turn : String
  cursor : Option (Nat × Int)
  active : Bool
  records : List Invocation
  pending : Option Candidate
  bound : Bool
  issued : Option Effect
  deriving DecidableEq, Repr

/-- `Tracker::new`; `identity` is the address of the new `Arc`. -/
def new (identity generation : Nat) : Tracker where
  generation := generation
  identity := identity
  epoch := some 0
  root := ""
  turn := ""
  cursor := none
  active := false
  records := []
  pending := none
  bound := false
  issued := none

def bounded (value : String) : Bool :=
  !value.isEmpty && value.utf8ByteSize ≤ 128 && !value.toList.any Lib.Text.isControl

/-- `u64::checked_add(1)`. -/
def checkedSucc (n : Nat) : Option Nat := if n + 1 < 2 ^ 64 then some (n + 1) else none

def Invocation.complete (record : Invocation) : Invocation := { record with completed := true }

namespace Tracker

def invalidate (t : Tracker) : Tracker :=
  { t with
    active := false
    pending := none
    bound := false
    issued := none
    epoch := t.epoch.bind checkedSucc }

/-- `ordered` of `event`: the sequence number and the time are both past the cursor. -/
def ordered (t : Tracker) (event : Event) : Bool :=
  t.cursor.all (fun cursor =>
    decide (cursor.1 < event.sequence) && decide (cursor.2 < event.observedMicros))

def contiguous (t : Tracker) (event : Event) : Bool :=
  t.cursor.any (fun cursor => checkedSucc cursor.1 == some event.sequence)

/-- The `Submitted` branch of `event`. -/
def submitted (t : Tracker) (event : Event) (cleanSubmission : Bool) : Tracker :=
  let t := t.invalidate
  if cleanSubmission && t.epoch.isSome then
    { t with active := true, root := event.root, turn := event.turn, records := [] }
  else t

/-- The `Pre` arm of `event`. -/
def pre (t : Tracker) (tool : String) (invocation : Option String) : Tracker × Option Effect :=
  match invocation with
  | none => (t.invalidate, none)
  | some id =>
    if 64 ≤ t.records.length || t.pending.isSome
        || t.records.any (fun r => !r.completed || r.id == id) then (t.invalidate, none)
    else
      ({ t with records := t.records ++ [{ id := id, tool := tool, completed := false }] },
        t.issued)

/-- The `Permission` arm; `named` is the event's own invocation, `invocation` the bounded
one. -/
def permission (t : Tracker) (tool : String) (named invocation : Option String) :
    Tracker × Option Effect :=
  match t.records.findIdx? (fun r => !r.completed) with
  | none => (t.invalidate, none)
  | some index =>
    if t.pending.isSome || (t.records[index]?).any (fun record => record.tool != tool
        || (named.isSome && invocation != some record.id)) then (t.invalidate, none)
    else match t.epoch with
      | none => (t, none)
      | some epoch =>
        let candidate : Candidate := { owner := t.identity, epoch := epoch, invocation := index }
        ({ t with
            pending := some candidate
            bound := false
            issued := some (.bindWait candidate) }, some (.bindWait candidate))

/-- `record.completed = true`. -/
def completeRecord (t : Tracker) (index : Nat) : Tracker :=
  { t with records := t.records.modify index Invocation.complete }

/-- The `Post` arm of `event`. -/
def post (t : Tracker) (tool : String) (invocation : Option String) : Tracker × Option Effect :=
  match invocation with
  | none => (t.invalidate, none)
  | some id =>
    match t.records.findIdx? (fun r => r.id == id) with
    | none => (t.invalidate, none)
    | some index =>
      if (t.records[index]?).any (fun record => record.completed || record.tool != tool) then
        (t.invalidate, none)
      else
        let t := t.completeRecord index
        match t.pending with
        | some candidate =>
          if candidate.invocation != index || !t.bound then (t.invalidate, none)
          else
            ({ t with issued := some (.clearWait candidate) }, some (.clearWait candidate))
        | none => (t, t.issued)

/-- The `match event.hook` of `event`, once the event has a tool. -/
def dispatch (t : Tracker) (event : Event) (tool : String) : Tracker × Option Effect :=
  match event.hook with
  | .pre => t.pre tool (event.invocation.filter bounded)
  | .permission => t.permission tool event.invocation (event.invocation.filter bounded)
  | .post => t.post tool (event.invocation.filter bounded)
  -- `unreachable!` in the source: both returned before
  | .submitted => (t, none)
  | .stop => (t, none)

/-- `event` from the cursor on. -/
def follow (t : Tracker) (event : Event) (cleanSubmission : Bool) : Tracker × Option Effect :=
  let contiguous := t.contiguous event
  let t := { t with cursor := some (event.sequence, event.observedMicros) }
  if event.hook = .submitted then (t.submitted event cleanSubmission, none)
  else if event.hook = .stop || !contiguous || event.root != t.root || event.turn != t.turn then
    (t.invalidate, none)
  else if !t.active then (t, none)
  else match event.tool.filter bounded with
    | none => (t.invalidate, none)
    | some tool => t.dispatch event tool

def event (t : Tracker) (event : Event) (cleanSubmission : Bool) : Tracker × Option Effect :=
  -- an unacknowledged persistence outcome is not a usable baseline
  let t := if t.issued.isSome then t.invalidate else t
  if event.generation != t.generation || !bounded event.root || !bounded event.turn then
    (t.invalidate, none)
  else if !t.ordered event then (t.invalidate, none)
  else t.follow event cleanSubmission

def accepts (t : Tracker) (effect : Effect) : Bool := t.active && t.issued == some effect

def acknowledgeWait (t : Tracker) (effect : Effect) : Tracker × Bool :=
  match effect with
  | .clearWait _ => (t, false)
  | .bindWait _ =>
    if !t.accepts effect then (t, false)
    else ({ t with bound := true, issued := none }, true)

def acknowledgeClear (t : Tracker) (effect : Effect) : Tracker × Bool :=
  match effect with
  | .bindWait _ => (t, false)
  | .clearWait _ =>
    if !t.accepts effect then (t, false)
    else ({ t with pending := none, bound := false, issued := none }, true)

end Tracker

/-! ## Runs -/

/-- One call of a public method. -/
inductive Call where
  | event (event : Event) (cleanSubmission : Bool)
  | acknowledgeWait (effect : Effect)
  | acknowledgeClear (effect : Effect)
  | invalidate
  deriving DecidableEq, Repr

def Tracker.apply (t : Tracker) : Call → Tracker
  | .event event cleanSubmission => (t.event event cleanSubmission).1
  | .acknowledgeWait effect => (t.acknowledgeWait effect).1
  | .acknowledgeClear effect => (t.acknowledgeClear effect).1
  | .invalidate => t.invalidate

def Tracker.returns (t : Tracker) : Call → Option Effect
  | .event event cleanSubmission => (t.event event cleanSubmission).2
  | _ => none

def Tracker.acknowledges (t : Tracker) : Call → Option Effect
  | .acknowledgeWait effect => if (t.acknowledgeWait effect).2 then some effect else none
  | .acknowledgeClear effect => if (t.acknowledgeClear effect).2 then some effect else none
  | _ => none

/-- The tracker after a run of calls, the newest call first. -/
def after (identity generation : Nat) : List Call → Tracker
  | [] => new identity generation
  | call :: calls => (after identity generation calls).apply call

/-- The events of a run with their `clean_submission`, the newest first. -/
def events : List Call → List (Event × Bool)
  | [] => []
  | .event event cleanSubmission :: calls => (event, cleanSubmission) :: events calls
  | .acknowledgeWait _ :: calls => events calls
  | .acknowledgeClear _ :: calls => events calls
  | .invalidate :: calls => events calls

/-- The effects a run returned, the newest first. -/
def returned (identity generation : Nat) : List Call → List Effect
  | [] => []
  | call :: calls =>
    ((after identity generation calls).returns call).toList ++ returned identity generation calls

/-- The effects a run acknowledged, the newest first. -/
def acknowledged (identity generation : Nat) : List Call → List Effect
  | [] => []
  | call :: calls =>
    ((after identity generation calls).acknowledges call).toList
      ++ acknowledged identity generation calls

end Orkworksd.CodexCompletion
