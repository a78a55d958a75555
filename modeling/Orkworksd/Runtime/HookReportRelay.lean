import Mathlib.Data.List.Sort
import Orkworksd.Lib.OrderedMap

/- The drain of the Codex hook-report mailbox (`runtime/codex_hook_report_relay.rs`).

   The receipt book is shared under a mutex by the pass that drains the mailbox and by
   the blocking parts of unlinks, which run on threads of their own even after their
   pass was cancelled. A step is therefore one locked section of the book, or one await:
   `Point` says where the pass is, and holds the local variables it still uses. File
   names, report bytes and observation stamps are types of their own; an `Instant` is a
   number. What a report does to the session is the outcome of its step, and
   `revoke_correlation`, which does not touch the book, is left out. -/
namespace Orkworksd.HookReportRelay
open Lib

abbrev Instant := Nat

def maxReportsPerPass : Nat := 32
def maxMailboxEntriesPerPass : Nat := 1024
def maxApprovalSlots : Nat := 64
def maxPendingReceipts : Nat := maxApprovalSlots
def maxRetriesPerPass : Nat := maxReportsPerPass / 2

structure PendingReceipt (B S : Type) where
  bytes : Option B
  firstReceipt : Instant
  observation : Option S
  deriving DecidableEq

structure ReceiptBook (N B S : Type) where
  pending : OrderedMap N (PendingReceipt B S)
  retryOrder : List N
  overflowFloor : Option Instant
  observationFloor : Option S
  deriving DecidableEq

variable {N B S : Type}

namespace ReceiptBook

def empty : ReceiptBook N B S where
  pending := []
  retryOrder := []
  overflowFloor := none
  observationFloor := none

variable [DecidableEq N]

def contains (book : ReceiptBook N B S) (name : N) : Bool := (book.pending.get name).isSome

/-- `pending.insert(name, receipt)` and `retry_order.push_back(name)`. -/
def insert (book : ReceiptBook N B S) (name : N) (receipt : PendingReceipt B S) :
    ReceiptBook N B S :=
  { book with
    pending := book.pending.set name receipt
    retryOrder := book.retryOrder ++ [name] }

def prepareReceipt (book : ReceiptBook N B S) (name : N) (firstReceipt : Instant)
    (observation : S) : ReceiptBook N B S :=
  if book.contains name then book
  else if maxPendingReceipts ≤ book.pending.length then
    { book with observationFloor := book.observationFloor.or (some observation) }
  else
    book.insert name
      { bytes := none
        firstReceipt := book.overflowFloor.getD firstReceipt
        observation := some (book.observationFloor.getD observation) }

/-- The retained receipt's observation stamp, where the receipt could be retained. -/
def retainReceipt [DecidableEq B] (book : ReceiptBook N B S) (name : N) (bytes : B)
    (firstReceipt : Instant) (approval : Bool) (observation : Option S) :
    ReceiptBook N B S × Option (Option S) :=
  let observation := book.observationFloor.or observation
  match book.pending.get name with
  | some receipt =>
    if receipt.bytes.any (· ≠ bytes) then (book, none)
    else
      let receipt := { receipt with
        bytes := receipt.bytes.or (some bytes)
        observation := receipt.observation.or observation }
      ({ book with pending := book.pending.set name receipt }, some receipt.observation)
  | none =>
    if maxPendingReceipts ≤ book.pending.length then
      (if approval then
          { book with overflowFloor := book.overflowFloor.or (some firstReceipt) }
        else book, none)
    else
      (book.insert name
        { bytes := some bytes, firstReceipt := firstReceipt, observation := observation },
        some observation)

/-- The file is gone: `pending.remove` and `retry_order.retain`. -/
def remove (book : ReceiptBook N B S) (name : N) : ReceiptBook N B S :=
  { book with
    pending := book.pending.filter (fun entry => entry.1 ≠ name)
    retryOrder := book.retryOrder.filter (fun pending => pending ≠ name) }

/-- The loop that takes the retries of a pass from the front of the order and puts them at
its back. -/
def rotate (book : ReceiptBook N B S) : Nat → List N → List N × List N
  | 0, order => ([], order)
  | n + 1, [] => rotate book n []
  | n + 1, name :: order =>
    if book.contains name then
      let rest := rotate book n (order ++ [name])
      (name :: rest.1, rest.2)
    else rotate book n order

/-- The retries of a pass, and the book with its order rotated. -/
def takeRetries (book : ReceiptBook N B S) : List N × ReceiptBook N B S :=
  let rotated := book.rotate (min book.retryOrder.length maxRetriesPerPass) book.retryOrder
  (rotated.1, { book with retryOrder := rotated.2 })

end ReceiptBook

/-- `select_unvisited_reports`: `pages` are the answers of `mailbox.entries`, each cut to the
limit it was asked for. -/
def selectUnvisited [DecidableEq N] (isReportFilename : N → Bool) (excluded : List N)
    (reportLimit : Nat) : (inspected : Nat) → (reports : List N) → List (List N) → List N
  | _, reports, [] => reports
  | inspected, reports, page :: pages =>
    if reports.length < reportLimit ∧ inspected < maxMailboxEntriesPerPass then
      let pageLimit := min (reportLimit - reports.length) (maxMailboxEntriesPerPass - inspected)
      let entries := page.take pageLimit
      if entries.isEmpty then reports
      else
        let reports := reports ++
          entries.filter (fun name => isReportFilename name && !excluded.contains name)
        if entries.length < pageLimit then reports
        else
          selectUnvisited isReportFilename excluded reportLimit (inspected + entries.length)
            reports pages
    else reports

def selectUnvisitedReports [LinearOrder N] (isReportFilename : N → Bool) (excluded : List N)
    (reportLimit : Nat) (pages : List (List N)) : List N :=
  (selectUnvisited isReportFilename excluded reportLimit 0 [] pages).insertionSort (· ≤ ·)

/-! ## Passes -/

inductive Kind where
  | identity
  | approval
  deriving DecidableEq, Repr

/-- How a report ended; on the local path a `503` is a retry. -/
inductive Outcome where
  | accepted
  | rejected
  | retry
  | committedDetached
  | storageError
  deriving DecidableEq, Repr

/-- The variables of one iteration over the reports. -/
structure Visit (N S : Type) where
  name : N
  receipt : Instant
  observation : Option S
  deriving DecidableEq

/-- Where a pass is. -/
inductive Point (N B S : Type) where
  /-- The mailbox is scanned. -/
  | scan (retries excluded : List N)
  /-- The next report, if any. -/
  | next
  /-- The report is read. -/
  | read (visit : Visit N S)
  /-- The report is about to be compared with its receipt. -/
  | inspect (visit : Visit N S) (kind : Kind) (bytes : B)
  /-- The report is unchanged and about to be retained. -/
  | retain (visit : Visit N S) (kind : Kind) (bytes : B) (firstReceipt : Instant) (full : Bool)
  /-- An identity report is being applied. -/
  | identity (visit : Visit N S) (stamp : Option S)
  /-- An approval report is being applied. -/
  | approval (visit : Visit N S) (bytes : B) (firstReceipt : Instant)
  /-- The file is being unlinked. -/
  | unlink (id : Nat)
  deriving DecidableEq

/-- `SqlRelayOutcome`; whether a storage error was kept. -/
structure RelayOutcome where
  reportsConsumed : Nat
  reportsAccepted : Nat
  committedDetached : Nat
  storageError : Bool
  deriving DecidableEq, Repr

structure Pass (N B S : Type) where
  sql : Bool
  reports : List N
  point : Point N B S
  outcome : RelayOutcome
  deriving DecidableEq

structure Relay (N B S : Type) where
  book : ReceiptBook N B S
  pass : Option (Pass N B S)
  /-- The blocking parts of unlinks that have not run yet. -/
  unlinks : List (Nat × N)
  nextUnlink : Nat
  /-- What the last pass that was not cancelled returned. -/
  returned : Option RelayOutcome
  deriving DecidableEq

/-- `CodexHookReportRelay::new`. -/
def start : Relay N B S where
  book := .empty
  pass := none
  unlinks := []
  nextUnlink := 0
  returned := none

inductive Label (N B S : Type) where
  /-- A pass that owns the live runtime begins. -/
  | begin (sql : Bool)
  /-- The scan ended with these pages, or failed. -/
  | scanned (pages : Option (List (List N)))
  /-- The next report is visited, at this time and under this stamp; `cancelled` is the flag
  of the SQL drain. -/
  | visit (cancelled : Bool) (now : Instant) (stamp : Option S)
  /-- There is no report left. -/
  | finish
  /-- The report was read, or could not be read as one. -/
  | readReport (report : Option (Kind × B))
  | inspect
  | retain
  | applied (outcome : Outcome)
  /-- The blocking part of an unlink ran: the file is gone, or the unlink failed. -/
  | unlinkRan (id : Nat) (gone : Bool)
  | unlinkDone
  /-- The pass is dropped at an await. -/
  | cancel
  deriving DecidableEq

namespace Pass

def goto (pass : Pass N B S) (point : Point N B S) : Pass N B S := { pass with point := point }

def consume (pass : Pass N B S) (id : Nat) : Pass N B S :=
  { pass with
    point := .unlink id
    outcome := { pass.outcome with reportsConsumed := pass.outcome.reportsConsumed + 1 } }

/-- The counters after a report was applied. -/
def count (pass : Pass N B S) (outcome : Outcome) : Pass N B S :=
  match outcome with
  | .accepted =>
    { pass with outcome :=
        { pass.outcome with reportsAccepted := pass.outcome.reportsAccepted + 1 } }
  | .committedDetached =>
    { pass with outcome :=
        { pass.outcome with committedDetached := pass.outcome.committedDetached + 1 } }
  | .storageError => { pass with outcome := { pass.outcome with storageError := true } }
  | .rejected => pass
  | .retry => pass

end Pass

/-- `keep`: the file stays for another pass. -/
def Outcome.keeps : Outcome → Bool
  | .retry => true
  | .storageError => true
  | _ => false

/-- The awaits, at which a pass can be dropped. -/
def Point.awaits : Point N B S → Bool
  | .scan _ _ => true
  | .read _ => true
  | .identity _ _ => true
  | .approval _ _ _ => true
  | .unlink _ => true
  | _ => false

namespace Relay

def setPass (relay : Relay N B S) (pass : Pass N B S) : Relay N B S :=
  { relay with pass := some pass }

/-- `!keep`: the blocking part of the unlink is spawned. -/
def discard (relay : Relay N B S) (pass : Pass N B S) (name : N) : Relay N B S :=
  { relay with
    pass := some (pass.consume relay.nextUnlink)
    unlinks := relay.unlinks ++ [(relay.nextUnlink, name)]
    nextUnlink := relay.nextUnlink + 1 }

section
variable [DecidableEq N] [DecidableEq B]

/-- The locked section after a report was read. -/
def inspect (relay : Relay N B S) (pass : Pass N B S) (visit : Visit N S) (kind : Kind)
    (bytes : B) : Relay N B S :=
  let full := !relay.book.contains visit.name &&
    decide (maxPendingReceipts ≤ relay.book.pending.length)
  let book :=
    if full && kind == .approval then
      { relay.book with overflowFloor := relay.book.overflowFloor.or (some visit.receipt) }
    else relay.book
  let relay := { relay with book := book }
  let floor := book.overflowFloor.getD visit.receipt
  match book.pending.get visit.name with
  | none => relay.setPass (pass.goto (.retain visit kind bytes floor full))
  | some old =>
    if old.bytes.any (· ≠ bytes) then relay.discard pass visit.name
    else relay.setPass (pass.goto (.retain visit kind bytes old.firstReceipt full))

/-- The retention of an unchanged report, up to the await that applies it. -/
def retain (relay : Relay N B S) (pass : Pass N B S) (visit : Visit N S) (kind : Kind)
    (bytes : B) (firstReceipt : Instant) (full : Bool) : Relay N B S :=
  match kind with
  | .identity =>
    if pass.sql then
      if full then relay.setPass (pass.goto .next)
      else
        let retained := relay.book.retainReceipt visit.name bytes firstReceipt false
          visit.observation
        let relay := { relay with book := retained.1 }
        match retained.2 with
        | some (some stamp) => relay.setPass (pass.goto (.identity visit (some stamp)))
        | _ => relay.setPass (pass.goto .next)
    else
      let retained := relay.book.retainReceipt visit.name bytes firstReceipt false
        visit.observation
      let relay := { relay with book := retained.1 }
      let stamp := (retained.2.bind id).or relay.book.observationFloor
      relay.setPass (pass.goto (.identity visit stamp))
  | .approval =>
    if full then relay.setPass (pass.goto .next)
    else
      let retained := relay.book.retainReceipt visit.name bytes firstReceipt true none
      let relay := { relay with book := retained.1 }
      match retained.2 with
      | none => relay.setPass (pass.goto .next)
      | some _ => relay.setPass (pass.goto (.approval visit bytes firstReceipt))

/-- An approval report was applied; a retry puts a receipt back that is no longer there. -/
def approvalApplied (relay : Relay N B S) (pass : Pass N B S) (visit : Visit N S) (bytes : B)
    (firstReceipt : Instant) (outcome : Outcome) : Relay N B S :=
  let pass := pass.count outcome
  if outcome.keeps then
    let book :=
      if relay.book.contains visit.name then relay.book
      else relay.book.insert visit.name
        { bytes := some bytes, firstReceipt := firstReceipt, observation := none }
    { relay with book := book }.setPass (pass.goto .next)
  else relay.discard pass visit.name

end

/-- One iteration begins. -/
def visit [DecidableEq N] (relay : Relay N B S) (pass : Pass N B S) (name : N)
    (reports : List N) (now : Instant) (stamp : Option S) : Relay N B S :=
  let book :=
    match stamp with
    | some stamp => relay.book.prepareReceipt name now stamp
    | none => relay.book
  { relay with book := book }.setPass
    { pass with
      reports := reports
      point := .read { name := name, receipt := now, observation := stamp } }

/-- The blocking part of an unlink. -/
def unlinkRan [DecidableEq N] (relay : Relay N B S) (id : Nat) (name : N) (gone : Bool) :
    Relay N B S :=
  { relay with
    unlinks := relay.unlinks.filter (fun unlink => unlink.1 ≠ id)
    book := if gone then relay.book.remove name else relay.book }

/-- The pass ends; the drain of a cancelled owner returns what it has. -/
def finish (relay : Relay N B S) (pass : Pass N B S) : Relay N B S :=
  { relay with pass := none, returned := some pass.outcome }

/-- A new pass. -/
def begin [DecidableEq N] (relay : Relay N B S) (sql : Bool) : Relay N B S :=
  let taken := relay.book.takeRetries
  { relay with book := taken.2 }.setPass
    { sql := sql
      reports := []
      point := .scan taken.1 (OrderedMap.keys taken.2.pending)
      outcome := ⟨0, 0, 0, false⟩ }

variable [LinearOrder N] [DecidableEq B]

def step (isReportFilename : N → Bool) (relay : Relay N B S) :
    Label N B S → Option (Relay N B S)
  | .begin sql =>
    match relay.pass with
    | none => some (relay.begin sql)
    | some _ => none
  | .unlinkRan id gone =>
    (relay.unlinks.find? (fun unlink => unlink.1 = id)).map
      (fun unlink => relay.unlinkRan id unlink.2 gone)
  | .cancel =>
    (relay.pass.filter (fun pass => pass.point.awaits)).map
      (fun _ => { relay with pass := none })
  | label =>
    relay.pass.bind fun pass =>
      match pass.point, label with
      | .scan retries excluded, .scanned pages =>
        let budget := maxReportsPerPass - retries.length
        let fresh := match pages with
          | some pages => selectUnvisitedReports isReportFilename excluded budget pages
          | none => []
        some (relay.setPass { pass with reports := retries ++ fresh, point := .next })
      | .next, .visit cancelled now stamp =>
        match pass.reports with
        | [] => none
        | name :: reports =>
          if pass.sql && cancelled then some (relay.finish pass)
          else if pass.sql && stamp.isNone then none
          else some (relay.visit pass name reports now stamp)
      | .next, .finish =>
        match pass.reports with
        | [] => some (relay.finish pass)
        | _ :: _ => none
      | .read visit, .readReport report =>
        match report with
        | some (kind, bytes) => some (relay.setPass (pass.goto (.inspect visit kind bytes)))
        | none => some (relay.discard pass visit.name)
      | .inspect visit kind bytes, .inspect => some (relay.inspect pass visit kind bytes)
      | .retain visit kind bytes firstReceipt full, .retain =>
        some (relay.retain pass visit kind bytes firstReceipt full)
      | .identity visit _, .applied outcome =>
        if outcome.keeps then some (relay.setPass ((pass.count outcome).goto .next))
        else some (relay.discard (pass.count outcome) visit.name)
      | .approval visit bytes firstReceipt, .applied outcome =>
        some (relay.approvalApplied pass visit bytes firstReceipt outcome)
      | .unlink id, .unlinkDone =>
        if relay.unlinks.any (fun unlink => unlink.1 = id) then none
        else some (relay.setPass (pass.goto .next))
      | _, _ => none

end Relay

end Orkworksd.HookReportRelay
