import Mathlib.Algebra.Order.Ring.Int
import Orkworksd.Lib.OrderedMap

/- The worker of the session store and the callers that race with it
   (`session_store/worker.rs`).

   Every command has one `Cell`: its reservation, its state word, the decision channel of a
   gated command, and where its job and its ticket are. A caller's atomic action touches the
   cell alone (`Cell.act`), an action of the worker on the job in its hand the cell and the
   worker's place in its loop (`Cell.work`); what is done under the queue's lock is a step of
   its own (`Store.step`). Values that go out of scope are dropped by further steps, so that
   anything can happen in between. `Seen` records what was executed and what a caller was
   told; no step reads it. The runtime resources of a job are left out, and so is the
   database: executing a command is one step. -/
namespace Orkworksd.SessionStoreWorker
open Lib

/-- Nanoseconds of the monotonic clock. -/
abbrev Instant := Nat

def maxRecord : Nat := 1024 * 1024
def maxBytes : Nat := 32 * 1024 * 1024
def maxPendingReads : Nat := 8
def maxPendingMutations : Nat := 32
/-- The two seconds between the admission of a command and its deadline. -/
def patience : Nat := 2000000000

/-! ## Commands -/

/-- The commands, with the data their result bound depends on. -/
inductive Kind where
  | create
  | internal
  | get
  | organizationState
  | pendingDeletions
  | deletionRecord
  | ownedAttention
  | history
  | live (ids : Nat)
  | exist (lengths : List Nat)
  | retention
  | patch
  | organization
  | beginDelete
  | deletionProgress
  deriving DecidableEq, Repr

/-- A command and the length of its JSON text, `none` where it cannot be written. -/
structure Command where
  kind : Kind
  size : Option Nat
  deriving DecidableEq, Repr

def Command.isRead (command : Command) : Bool :=
  match command.kind with
  | .get => true
  | .organizationState => true
  | .pendingDeletions => true
  | .deletionRecord => true
  | .ownedAttention => true
  | .history => true
  | .live _ => true
  | .exist _ => true
  | .retention => true
  | _ => false

/-- A `usize` result that saturates. -/
def saturating (n : Nat) : Nat := min n (2 ^ 64 - 1)

def Command.resultBound (command : Command) : Nat :=
  match command.kind with
  | .get => maxRecord
  | .patch => maxRecord
  | .organizationState => maxRecord + 4096
  | .deletionRecord => maxRecord + 4096
  | .pendingDeletions => 256 * 1024
  | .internal => maxRecord + 4096
  | .ownedAttention => maxRecord + 4096
  | .history => 256 * 1024
  | .live ids => saturating (saturating (ids * 8192) + 16384)
  | .exist lengths => (lengths.map (· + 4)).foldl (· + ·) 0
  | .retention => 256 * 1024
  | .organization => 32
  | _ => 0

/-- The bytes that `prepare` reserves, where it does not refuse the command as too large. -/
def Command.reserve (command : Command) : Option Nat :=
  command.size.bind fun intent =>
    if maxRecord < intent then none
    else if maxBytes < intent + command.resultBound then none
    else some (intent + command.resultBound)

/-! ## Cells -/

/-- The state word: `0`, `1` and `2`. -/
inductive Word where
  | queued
  | executing
  | cancelled
  deriving DecidableEq, Repr

/-- `ExecutionDecision`. -/
inductive Decision where
  | run
  | reject
  | expired
  deriving DecidableEq, Repr

/-- The request of a gated command on its way to a decision. -/
inductive Gate where
  | closed
  /-- The caller has the `ExecutionRequest`. -/
  | requested
  /-- `grant` has claimed the word and is about to look at the deadline. -/
  | claimed
  /-- The caller has the `ExecutionGrant`. -/
  | granted
  | decided (decision : Decision)
  deriving DecidableEq, Repr

/-- Where the job, and after it the delivery, with its reservation is. -/
inductive Place where
  | prepared
  | queued
  | taken
  /-- In the reply channel. -/
  | delivered
  /-- With the caller. -/
  | held
  /-- Out of scope; the reservation is about to be dropped. -/
  | dropping
  | released
  deriving DecidableEq, Repr

inductive Ticket where
  /-- The deadline has not fired. -/
  | waiting
  /-- It has, and execution had begun. -/
  | late
  /-- Dropped: the exchange, the retirement and the close of the receiver are to come. -/
  | dropping
  | retiring
  | closing
  | closed
  deriving DecidableEq, Repr

/-- What was executed, and what the caller was told. -/
structure Seen where
  executions : Nat
  waitExpired : Bool
  cancelled : Bool
  grantFailed : Bool
  executeCalled : Bool
  deriving DecidableEq, Repr

structure Cell where
  bytes : Nat
  read : Bool
  /-- `Reservation.pending`. -/
  pending : Bool
  admitted : Instant
  word : Word
  gated : Bool
  gate : Gate
  place : Place
  ticket : Ticket
  seen : Seen
  deriving DecidableEq, Repr

/-- The job and the ticket of a command that was admitted. -/
def Cell.prepared (bytes : Nat) (read : Bool) (now : Instant) : Cell where
  bytes := bytes
  read := read
  pending := true
  admitted := now
  word := .queued
  gated := false
  gate := .closed
  place := .prepared
  ticket := .waiting
  seen := ⟨0, false, false, false, false⟩

def Cell.deadline (c : Cell) : Instant := c.admitted + patience

/-- The atomic actions of callers that touch no lock. -/
inductive Act where
  | dropPrepared
  /-- The deadline of `receive_delivery` fires. -/
  | expire
  | receive
  | dropTicket
  /-- The exchange in the ticket's `drop`. -/
  | cancelTicket
  | closeReceiver
  /-- `MutationCancellation::cancel`. -/
  | cancel
  | dropCancellation
  | dropReply
  /-- The exchange in `ExecutionRequest::grant`. -/
  | grant
  | checkGrant
  | dropRequest
  | execute
  | dropGrant
  deriving DecidableEq, Repr

namespace Cell

/-- `compare_exchange(0, 2)`. -/
def cancelWord (c : Cell) : Cell :=
  if c.word = .queued then { c with word := .cancelled } else c

/-- `receive_delivery` holds the ticket. -/
def awaited (c : Cell) : Bool :=
  (c.ticket = .waiting || c.ticket = .late) && c.place ≠ .prepared

def act (c : Cell) (now : Instant) : Act → Option Cell
  | .dropPrepared =>
    if c.place = .prepared then some { c with place := .dropping, ticket := .dropping } else none
  | .expire =>
    if c.ticket = .waiting ∧ c.place ≠ .prepared ∧ c.deadline ≤ now then
      if c.word = .queued then
        some { c with
          word := .cancelled
          ticket := .dropping
          seen := { c.seen with waitExpired := true } }
      else some { c with ticket := .late }
    else none
  | .receive =>
    if c.awaited then
      match c.place with
      | .delivered => some { c with place := .held, ticket := .dropping }
      | .dropping => some { c with ticket := .dropping }
      | .released => some { c with ticket := .dropping }
      | _ => none
    else none
  | .dropTicket => if c.awaited then some { c with ticket := .dropping } else none
  | .cancelTicket =>
    if c.ticket = .dropping then some { c.cancelWord with ticket := .retiring } else none
  | .closeReceiver =>
    if c.ticket = .closing then
      some { c with
        ticket := .closed
        place := if c.place = .delivered then .dropping else c.place }
    else none
  | .cancel =>
    if c.word = .queued then
      some { c with word := .cancelled, seen := { c.seen with cancelled := true } }
    else some c
  | .dropCancellation => some c.cancelWord
  | .dropReply => if c.place = .held then some { c with place := .dropping } else none
  | .grant =>
    if c.gate = .requested then
      if c.word = .queued then some { c with word := .executing, gate := .claimed }
      else
        some { c with
          gate := .decided .expired
          seen := { c.seen with grantFailed := true } }
    else none
  | .checkGrant =>
    if c.gate = .claimed then
      if c.deadline ≤ now then
        some { c with
          gate := .decided .expired
          seen := { c.seen with grantFailed := true } }
      else some { c with gate := .granted }
    else none
  | .dropRequest =>
    if c.gate = .requested then some { c with gate := .decided .reject } else none
  | .execute =>
    if c.gate = .granted then
      some { c with gate := .decided .run, seen := { c.seen with executeCalled := true } }
    else none
  | .dropGrant => if c.gate = .granted then some { c with gate := .decided .reject } else none

end Cell

/-! ## The worker -/

/-- Where the worker is with the job in its hand. -/
inductive Point where
  | taken
  /-- A gated job: the age is looked at, the request is sent, the decision is awaited. -/
  | offering
  | sending
  | deciding
  | timedOut
  | blocked
  | decided (decision : Decision)
  /-- Any other job: the word is claimed, then the age is looked at. -/
  | claiming
  | claimed
  /-- The command may run: the reservation leaves the pending set, then it is executed. -/
  | granted
  | executing
  /-- It ran or was rejected: the reservation leaves the pending set, then the reply is sent. -/
  | settled
  | replying
  deriving DecidableEq, Repr

/-- The worker's actions on the job in its hand that touch no lock. -/
inductive Work where
  | look
  | age
  /-- The request is sent; `heard` where its receiver is still there. -/
  | offer (heard : Bool)
  | decide
  | timeout
  | load
  | settle
  | claim
  | checkAge
  | run
  | reply
  deriving DecidableEq, Repr

/-- The next place in the loop, `none` at its end. -/
def Cell.work (c : Cell) (now : Instant) (point : Point) : Work → Option (Option Point × Cell)
  | .look =>
    if point = .taken then
      if c.ticket = .closed then some (none, { c with place := .dropping })
      else if c.gated then some (some .offering, c)
      else some (some .claiming, c)
    else none
  | .age =>
    if point = .offering then
      if c.deadline < now then some (some .settled, c) else some (some .sending, c)
    else none
  | .offer heard =>
    if point = .sending then
      if heard then some (some .deciding, { c with gate := .requested })
      else some (some .settled, { c with gate := .decided .reject })
    else none
  | .decide =>
    if point = .deciding ∨ point = .blocked then
      match c.gate with
      | .decided decision => some (some (.decided decision), c)
      | _ => none
    else none
  | .timeout =>
    if point = .deciding ∧ c.deadline ≤ now then some (some .timedOut, c) else none
  | .load =>
    if point = .timedOut then
      if c.word = .executing then some (some .blocked, c) else some (some .settled, c)
    else none
  | .settle =>
    match point with
    | .decided decision =>
      if decision = .run ∧ c.word = .executing then some (some .granted, c)
      else some (some .settled, c)
    | _ => none
  | .claim =>
    if point = .claiming then
      if c.word = .queued then some (some .claimed, { c with word := .executing })
      else some (some .settled, c)
    else none
  | .checkAge =>
    if point = .claimed then
      if c.deadline ≤ now then some (some .settled, c) else some (some .granted, c)
    else none
  | .run =>
    if point = .executing then
      some (some .settled,
        { c with seen := { c.seen with executions := c.seen.executions + 1 } })
    else none
  | .reply =>
    if point = .replying then
      some (none, { c with place := if c.ticket = .closed then .dropping else .delivered })
    else none

/-! ## The store -/

structure Store where
  now : Instant
  cells : OrderedMap Nat Cell
  nextId : Nat
  mutations : List Nat
  reads : List Nat
  bytes : Int
  pendingMutations : Int
  pendingReads : Int
  closed : Bool
  /-- The job in the worker's hand. -/
  worker : Option (Nat × Point)
  stopped : Bool
  /-- An `i32`. -/
  burst : Int
  deriving DecidableEq, Repr

def start : Store where
  now := 0
  cells := []
  nextId := 0
  mutations := []
  reads := []
  bytes := 0
  pendingMutations := 0
  pendingReads := 0
  closed := false
  worker := none
  stopped := false
  burst := 0

inductive Label where
  | tick (duration : Nat)
  | prepare (command : Command)
  | enqueue (id : Nat) (gate : Bool)
  | act (id : Nat) (act : Act)
  /-- `retire_cancelled` in the ticket's `drop`. -/
  | retire (id : Nat)
  /-- `Reservation::drop`. -/
  | release (id : Nat)
  | close
  | takeMutation
  | takeRead
  | work (work : Work)
  /-- `permit.executing()`, before the execution and after it. -/
  | executing
  | stop
  deriving DecidableEq, Repr

namespace Store

def setCell (s : Store) (id : Nat) (c : Cell) : Store := { s with cells := s.cells.set id c }

/-- One reservation less in the pending set. -/
def unpend (s : Store) (c : Cell) : Store :=
  if c.pending then
    if c.read then { s with pendingReads := s.pendingReads - 1 }
    else { s with pendingMutations := s.pendingMutations - 1 }
  else s

def prepare (s : Store) (command : Command) : Store :=
  match command.reserve with
  | none => s
  | some bytes =>
    if s.closed then s
    else if (command.isRead = true ∧ (maxPendingReads : Int) ≤ s.pendingReads) ∨
        (command.isRead = false ∧ (maxPendingMutations : Int) ≤ s.pendingMutations) ∨
        (maxBytes : Int) < s.bytes + bytes then s
    else
      { s with
        bytes := s.bytes + bytes
        pendingReads := if command.isRead then s.pendingReads + 1 else s.pendingReads
        pendingMutations :=
          if command.isRead then s.pendingMutations else s.pendingMutations + 1
        cells := s.cells.set s.nextId (.prepared bytes command.isRead s.now)
        nextId := s.nextId + 1 }

/-- `PreparedJob::enqueue`; a refused job goes out of scope with its ticket. -/
def enqueue (s : Store) (id : Nat) (c : Cell) (gate : Bool) : Store :=
  if s.closed ∨ c.deadline ≤ s.now then
    s.setCell id { c with place := .dropping, ticket := .dropping }
  else
    let s := s.setCell id { c with place := .queued, gated := gate }
    if c.read then { s with reads := s.reads ++ [id] }
    else { s with mutations := s.mutations ++ [id] }

/-- The ticket's job is taken out of its queue, where it is in one. -/
def retire (s : Store) (id : Nat) (c : Cell) : Store :=
  if c.word = .cancelled then
    if id ∈ s.mutations then
      { s with mutations := s.mutations.erase id }.setCell id
        { c with place := .dropping, ticket := .closing }
    else if id ∈ s.reads then
      { s with reads := s.reads.erase id }.setCell id
        { c with place := .dropping, ticket := .closing }
    else s.setCell id { c with ticket := .closing }
  else s.setCell id { c with ticket := .closing }

def release (s : Store) (id : Nat) (c : Cell) : Store :=
  ({ s with bytes := s.bytes - c.bytes }.unpend c).setCell id { c with place := .released }

/-- The worker goes on with the job it takes. -/
def take (s : Store) (id : Nat) (c : Cell) : Store :=
  { s with worker := some (id, .taken) }.setCell id { c with place := .taken }

/-- The next `burst`, which wraps as an `i32` does. -/
def nextBurst (s : Store) : Int := (s.burst + 1).bmod (2 ^ 32)

def step (s : Store) : Label → Option Store
  | .tick duration => some { s with now := s.now + duration }
  | .prepare command => some (s.prepare command)
  | .enqueue id gate =>
    ((s.cells.get id).filter (fun c => c.place = .prepared)).map (fun c => s.enqueue id c gate)
  | .act id act => (s.cells.get id).bind fun c => (c.act s.now act).map (fun c' => s.setCell id c')
  | .retire id =>
    ((s.cells.get id).filter (fun c => c.ticket = .retiring)).map (fun c => s.retire id c)
  | .release id =>
    ((s.cells.get id).filter (fun c => c.place = .dropping)).map (fun c => s.release id c)
  | .close => some { s with closed := true }
  | .takeMutation =>
    if s.worker = none ∧ s.stopped = false ∧ (s.burst < 8 ∨ s.reads = []) then
      match s.mutations with
      | [] => none
      | id :: rest =>
        (s.cells.get id).map fun c =>
          { s with mutations := rest, burst := s.nextBurst }.take id c
    else none
  | .takeRead =>
    if s.worker = none ∧ s.stopped = false ∧ (s.mutations = [] ∨ ¬ s.burst < 8) then
      match s.reads with
      | [] => none
      | id :: rest =>
        (s.cells.get id).map fun c => { s with reads := rest, burst := 0 }.take id c
    else none
  | .work work =>
    s.worker.bind fun hand =>
      (s.cells.get hand.1).bind fun c =>
        (c.work s.now hand.2 work).map fun next =>
          { s with worker := next.1.map (fun point => (hand.1, point)) }.setCell hand.1 next.2
  | .executing =>
    s.worker.bind fun hand =>
      (s.cells.get hand.1).bind fun c =>
        let next : Option Point :=
          match hand.2 with
          | .granted => some .executing
          | .settled => some .replying
          | _ => none
        next.map fun point =>
          ({ s with worker := some (hand.1, point) }.unpend c).setCell hand.1
            { c with pending := false }
  | .stop =>
    if s.worker = none ∧ s.mutations = [] ∧ s.reads = [] ∧ s.closed = true then
      some { s with stopped := true }
    else none

end Store

end Orkworksd.SessionStoreWorker
