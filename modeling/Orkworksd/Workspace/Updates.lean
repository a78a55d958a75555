import Mathlib.Algebra.Order.Ring.Int
import Orkworksd.Lib.OrderedMap

/- The workspace update stream: the server loop of `workspace_updates.rs` and the
   client of `workspaceUpdates.ts`. The server sends one snapshot of its session list
   and from then on deltas against the list it sent last; the client validates each
   message as a whole before it commits its baseline and cursor.

   Messages are the JSON objects that travel: `Field` tells an absent member from one
   of another type. A session row keeps the members the client looks at and, in `rest`,
   the text of all others. -/
namespace Orkworksd.Workspace

open Orkworksd.Lib

/-- A member of a JSON object, read at a type. -/
inductive Field (α : Type) where
  | absent
  | wrong
  | value (a : α)
  deriving DecidableEq, Repr

namespace Field

def toOption {α : Type} : Field α → Option α
  | .value a => some a
  | _ => none

end Field

structure Row where
  id : Field String
  label : Field String
  cwd : Field String
  createdAt : Field String
  status : Field String
  lifecycle : Field String
  memoryState : Field String
  resumeStrategy : Field String
  rest : String
  deriving DecidableEq, Repr

structure Message where
  type : Field String
  version : Field Int
  instanceId : Field String
  workspace : Field String
  generation : Field Int
  base : Field Int
  sequence : Field Int
  sessions : Field (List Row)
  changed : Field (List Row)
  removed : Field (List (Field String))
  order : Field (List (Field String))
  deriving DecidableEq, Repr

/-- The object with no member but its type. -/
def Message.bare (type : String) : Message where
  type := .value type
  version := .absent
  instanceId := .absent
  workspace := .absent
  generation := .absent
  base := .absent
  sequence := .absent
  sessions := .absent
  changed := .absent
  removed := .absent
  order := .absent

/-! ## The server -/

/-- `row["id"].as_str().unwrap_or("")`. -/
def Row.idText (row : Row) : String := row.id.toOption.getD ""

/-- The row an index by id holds: rows without a text id are not entered, a later
row of an id replaces an earlier one. -/
def indexed (rows : List Row) (id : String) : Option Row :=
  rows.reverse.find? (fun row => row.id = .value id)

structure SessionDelta where
  changed : List Row
  removed : List (Field String)
  order : Option (List (Field String))
  deriving DecidableEq, Repr

def sessionDelta (old next : List Row) : Option SessionDelta :=
  let changed := next.filter (fun row => indexed old row.idText ≠ some row)
  let removed := (old.filter (fun row => (indexed next row.idText).isNone)).map Row.id
  let order := next.map Row.id
  let reordered := old.map Row.id ≠ order
  if changed.isEmpty ∧ removed.isEmpty ∧ ¬ reordered then none
  else some ⟨changed, removed, if reordered then some order else none⟩

/-- What a subscription is fixed to. -/
structure Subscription where
  instanceId : String
  workspace : String
  generation : Nat

/-- `Revisions`, without the counters the loop compares only to leave. -/
structure Revisions where
  sessions : Nat
  recommendations : Nat
  deriving DecidableEq, Repr

/-- The loop's variables. -/
structure Server where
  baseline : Option (List Row)
  sequence : Nat
  consumed : Revisions
  full : Bool

def Server.start : Server where
  baseline := none
  sequence := 0
  consumed := ⟨0, 0⟩
  full := true

/-- The members every stateful message carries. -/
def Subscription.stamp (sub : Subscription) (message : Message) (base : Option Nat) (sequence : Nat) :
    Message :=
  { message with
    version := .value 1
    instanceId := .value sub.instanceId
    workspace := .value sub.workspace
    generation := .value sub.generation
    base := match base with
      | some n => .value n
      | none => .absent
    sequence := .value sequence }

def snapshotMessage (rows : List Row) : Message :=
  { Message.bare "snapshot" with sessions := .value rows }

def deltaMessage (delta : SessionDelta) : Message :=
  { Message.bare "sessions-delta" with
    changed := .value delta.changed
    removed := .value delta.removed
    order := match delta.order with
      | some order => .value order
      | none => .absent }

/-- A message and the server's variables when it is sent. -/
structure Sent where
  message : Message
  server : Server

/-- The session half of a pass: the snapshot, a delta, or nothing. -/
def Server.sendSessions (server : Server) (sub : Subscription) (rows : List Row) :
    Server × List Sent :=
  match server.baseline with
  | none =>
    let next := { server with baseline := some rows }
    (next, [⟨sub.stamp (snapshotMessage rows) none server.sequence, next⟩])
  | some old =>
    match sessionDelta old rows with
    | none => ({ server with baseline := some rows }, [])
    | some delta =>
      let next := { server with baseline := some rows, sequence := server.sequence + 1 }
      (next, [⟨sub.stamp (deltaMessage delta) (some server.sequence) next.sequence, next⟩])

/-- The recommendation half of a pass. -/
def Server.sendRecommendations (server : Server) (sub : Subscription) : Server × List Sent :=
  let next := { server with sequence := server.sequence + 1 }
  (next, [⟨sub.stamp (.bare "recommendations-invalidated") (some server.sequence) next.sequence, next⟩])

/-- What ends the wait at the foot of the loop. -/
inductive Wake where
  | changed | reconcile | heartbeat | refresh
  deriving DecidableEq, Repr

/-- One pass of the loop: the revisions it captures, the session query it makes (if
it makes one; `none` where it fails) and what wakes it. -/
structure Pass where
  captured : Revisions
  query : Option (List Row)
  wake : Wake

/-- The effect of a wake-up: a full pass next, or a heartbeat. -/
def Server.wake (server : Server) : Wake → Server × List Sent
  | .changed => (server, [])
  | .reconcile => ({ server with full := true }, [])
  | .heartbeat => (server, [⟨.bare "heartbeat", server⟩])
  | .refresh => ({ server with full := true }, [])

/-- The end of a pass. -/
def Server.settle (server : Server) (pass : Pass) : Server × List Sent :=
  { server with consumed := pass.captured, full := false }.wake pass.wake

/-- One pass of `run`; the server is `none` once the loop was left. -/
def Server.pass (server : Server) (sub : Subscription) (pass : Pass) : Option Server × List Sent :=
  let sessionsDirty := server.baseline.isNone || server.full
    || pass.captured.sessions != server.consumed.sessions
  let recommendationsDirty := server.baseline.isNone || server.full
    || pass.captured.recommendations != server.consumed.recommendations
  match sessionsDirty, pass.query with
  | true, none => (none, [⟨.bare "unavailable", server⟩])
  | dirty, query =>
    let first := match dirty, query with
      | true, some rows => server.sendSessions sub rows
      | _, _ => (server, [])
    let second := if recommendationsDirty then first.1.sendRecommendations sub else (first.1, [])
    let last := second.1.settle pass
    (some last.1, first.2 ++ second.2 ++ last.2)

/-- `run` over a list of passes: everything it sends. -/
def Server.run (sub : Subscription) : Server → List Pass → List Sent
  | _, [] => []
  | server, pass :: passes =>
    match server.pass sub pass with
    | (none, sent) => sent
    | (some next, sent) => sent ++ next.run sub passes

/-! ## The client -/

structure Client where
  workspacePath : String
  identity : Option (String × Int)
  sequence : Int
  baseline : List Row
  deriving DecidableEq, Repr

/-- `createStreamState`. -/
def Client.new (workspacePath : String) : Client where
  workspacePath := workspacePath
  identity := none
  sequence := -1
  baseline := []

/-- What a message tells the application. -/
structure Result where
  sessions : Option (List Row)
  recommendationsInvalidated : Bool
  deriving DecidableEq, Repr

/-- The row has the text members the client needs and a known lifecycle. -/
def Row.wellTyped (row : Row) : Bool :=
  row.id.toOption.isSome && row.label.toOption.isSome && row.cwd.toOption.isSome
    && row.createdAt.toOption.isSome && row.status.toOption.isSome
    && ["creating", "alive", "stopping", "dead"].any (fun text => row.lifecycle = .value text)
    && row.memoryState.toOption.isSome && row.resumeStrategy.toOption.isSome
    && row.idText ≠ ""

def checkRows : Field (List Row) → Option (List Row)
  | .value rows =>
    if rows.all Row.wellTyped && (rows.map Row.idText).Nodup then some rows else none
  | _ => none

def checkIds : Field (List (Field String)) → Option (List String)
  | .value values =>
    match values.mapM Field.toOption with
    | some texts => if texts.all (· ≠ "") && texts.Nodup then some texts else none
    | none => none
  | _ => none

/-- `Number.isSafeInteger(n) && n >= 0`. -/
def safeCount (field : Field Int) : Option Int :=
  match field with
  | .value n => if 0 ≤ n ∧ n ≤ 2 ^ 53 - 1 then some n else none
  | _ => none

/-- The members every message must carry: the instance, generation and sequence. -/
def Client.header (client : Client) (message : Message) : Option (String × Int × Int) :=
  if message.version = .value 1 ∧ message.workspace = .value client.workspacePath then
    match message.instanceId, safeCount message.generation, safeCount message.sequence with
    | .value instanceId, some generation, some sequence => some (instanceId, generation, sequence)
    | _, _, _ => none
  else none

/-- The order a delta puts the rows in: its own, or that of the map. -/
def deltaOrder (message : Message) (next : OrderedMap String Row) : Option (List String) :=
  if message.order = .absent then some (OrderedMap.keys next) else checkIds message.order

/-- The rows of a delta against the baseline; `none` where the client throws. -/
def Client.delta (client : Client) (message : Message) : Option (List Row) := do
  let changed ← checkRows message.changed
  let removed ← checkIds message.removed
  let start : OrderedMap String Row :=
    client.baseline.foldl (fun map row => OrderedMap.set map row.idText row) []
  let kept ← removed.foldlM OrderedMap.delete start
  let next ← changed.foldlM (fun map (row : Row) =>
    if removed.contains row.idText then none else some (OrderedMap.set map row.idText row)) kept
  let order ← deltaOrder message next
  if order.length ≠ next.length || order.any (fun id => (OrderedMap.get next id).isNone) then none
  else some (order.filterMap (OrderedMap.get next))

/-- `apply`: the client afterwards and its result, `none` where it throws. -/
def Client.apply (client : Client) (message : Message) : Client × Option Result :=
  match client.header message with
  | none => (client, none)
  | some (instanceId, generation, sequence) =>
    if message.type = .value "snapshot" then
      match client.identity, checkRows message.sessions with
      | none, some rows =>
        ({ client with identity := some (instanceId, generation), sequence := sequence, baseline := rows },
          some ⟨some rows, true⟩)
      | _, _ => (client, none)
    else if client.identity ≠ some (instanceId, generation) ∨ message.base ≠ .value client.sequence
        ∨ sequence ≠ client.sequence + 1 then
      (client, none)
    else if message.type = .value "recommendations-invalidated" then
      ({ client with sequence := client.sequence + 1 }, some ⟨none, true⟩)
    else if message.type = .value "sessions-delta" then
      match client.delta message with
      | some rows =>
        ({ client with baseline := rows, sequence := client.sequence + 1 }, some ⟨some rows, false⟩)
      | none => (client, none)
    else (client, none)

end Orkworksd.Workspace
