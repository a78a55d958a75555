import Mathlib.Data.List.Perm.Basic
import Orkworksd.Runtime.HookReportRelay

/- What a step of the hook-report relay does to its receipt book.

   `StepCase` lists the steps with the guards they are taken under. `BookMove` says once
   what a step can do to the receipt book, and `Source` from where a receipt that it admits
   takes its time and its stamp: `step_move`. -/
namespace Orkworksd.HookReportRelay
open Lib List OrderedMap

variable {N B S : Type}

/-! ## The book -/

def ReceiptBook.keys (book : ReceiptBook N B S) : List N := OrderedMap.keys book.pending

/-- The pending names are within the bound and the retry order lists each once. -/
structure Books (book : ReceiptBook N B S) : Prop where
  distinct : book.keys.Nodup
  order : book.retryOrder.Perm book.keys
  bounded : book.keys.length ≤ maxPendingReceipts

theorem length_keys (book : ReceiptBook N B S) : book.keys.length = book.pending.length :=
  length_map _

theorem Books.same {book book' : ReceiptBook N B S} (h : Books book)
    (hkeys : book'.keys = book.keys) (horder : book'.retryOrder.Perm book.retryOrder) :
    Books book' := by
  refine ⟨hkeys ▸ h.distinct, ?_, hkeys ▸ h.bounded⟩
  rw [hkeys]
  exact horder.trans h.order

section book
variable [DecidableEq N]

variable {book : ReceiptBook N B S} {name : N}

theorem contains_iff : book.contains name = true ↔ name ∈ book.keys :=
  get_isSome_iff

theorem mem_keys {e : PendingReceipt B S} (h : book.pending.get name = some e) :
    name ∈ book.keys := by
  rw [← contains_iff, ReceiptBook.contains, h]
  rfl

theorem get_of_mem (h : name ∈ book.keys) : ∃ e, book.pending.get name = some e :=
  Option.isSome_iff_exists.mp (contains_iff.mpr h)

theorem keys_insert (h : name ∉ book.keys) (receipt : PendingReceipt B S) :
    (book.insert name receipt).keys = book.keys ++ [name] :=
  keys_set_of_notMem h

theorem get_insert (book : ReceiptBook N B S) (name j : N) (receipt : PendingReceipt B S) :
    (book.insert name receipt).pending.get j =
      if name = j then some receipt else book.pending.get j :=
  get_set

theorem keys_remove (book : ReceiptBook N B S) (name : N) :
    (book.remove name).keys = book.keys.filter (fun j => j ≠ name) := by
  unfold ReceiptBook.keys ReceiptBook.remove OrderedMap.keys
  simp only [filter_map]
  rfl

theorem get_remove (book : ReceiptBook N B S) (name j : N) :
    (book.remove name).pending.get j = if name = j then none else book.pending.get j :=
  get_erase

theorem Books.insert (h : Books book) (hnew : name ∉ book.keys)
    (hroom : book.pending.length < maxPendingReceipts) (receipt : PendingReceipt B S) :
    Books (book.insert name receipt) := by
  have hkeys := keys_insert hnew receipt
  refine ⟨?_, ?_, ?_⟩
  · rw [hkeys]
    exact nodup_append.mpr ⟨h.distinct, nodup_singleton name, by
      intro a ha b hb heq
      rw [mem_singleton.mp hb] at heq
      exact hnew (heq ▸ ha)⟩
  · rw [hkeys]
    exact h.order.append_right [name]
  · rw [hkeys, length_append, length_keys]
    exact hroom

theorem Books.remove (h : Books book) (name : N) : Books (book.remove name) := by
  have hkeys := keys_remove book name
  refine ⟨?_, ?_, ?_⟩
  · rw [hkeys]
    exact h.distinct.filter _
  · rw [hkeys]
    exact h.order.filter _
  · rw [hkeys]
    exact Nat.le_trans (length_filter_le _ _) h.bounded

theorem rotate_eq (book : ReceiptBook N B S) {n : Nat} {order : List N}
    (hall : ∀ name ∈ order, name ∈ book.keys) (hn : n ≤ order.length) :
    book.rotate n order = (order.take n, order.drop n ++ order.take n) := by
  induction n generalizing order with
  | zero => simp [ReceiptBook.rotate]
  | succ n ih =>
    cases order with
    | nil => cases hn
    | cons name order =>
      have hn' : n ≤ order.length := Nat.le_of_succ_le_succ hn
      have hrest : book.rotate n (order ++ [name]) =
          ((order ++ [name]).take n, (order ++ [name]).drop n ++ (order ++ [name]).take n) := by
        apply ih
        · intro j hj
          rcases mem_append.mp hj with hj | hj
          · exact hall j (mem_cons_of_mem name hj)
          · rw [mem_singleton.mp hj]
            exact hall name mem_cons_self
        · rw [length_append]
          omega
      rw [ReceiptBook.rotate, if_pos (contains_iff.mpr (hall name mem_cons_self)), hrest,
        take_append_of_le_length hn', drop_append_of_le_length hn']
      simp

theorem takeRetries_eq (h : Books book) :
    book.takeRetries = (book.retryOrder.take maxRetriesPerPass,
      { book with retryOrder :=
          book.retryOrder.drop maxRetriesPerPass ++ book.retryOrder.take maxRetriesPerPass }) := by
  have hall : ∀ name ∈ book.retryOrder, name ∈ book.keys := fun name hname => h.order.mem_iff.mp hname
  have hrotate := rotate_eq book (n := min book.retryOrder.length maxRetriesPerPass) hall
    (Nat.min_le_left _ _)
  have htake : book.retryOrder.take (min book.retryOrder.length maxRetriesPerPass) =
      book.retryOrder.take maxRetriesPerPass := by
    rw [Nat.min_comm, ← take_take, List.take_length]
  have hdrop : book.retryOrder.drop (min book.retryOrder.length maxRetriesPerPass) =
      book.retryOrder.drop maxRetriesPerPass := by
    rcases Nat.le_total book.retryOrder.length maxRetriesPerPass with hle | hle
    · rw [Nat.min_eq_left hle, drop_length, drop_eq_nil_of_le hle]
    · rw [Nat.min_eq_right hle]
  unfold ReceiptBook.takeRetries
  simp only [hrotate, htake, hdrop]

end book

/-! ## What a step does -/

section steps
variable [LinearOrder N] [DecidableEq B]

/-- Every step of the relay, with the guards it is taken under. -/
inductive StepCase (r : Relay N B S) : Label N B S → Relay N B S → Prop where
  | begin {sql : Bool} : r.pass = none → StepCase r (.begin sql) (r.begin sql)
  | unlinkRan {id : Nat} {name : N} {gone : Bool} : (id, name) ∈ r.unlinks →
      StepCase r (.unlinkRan id gone) (r.unlinkRan id name gone)
  | cancel : StepCase r .cancel { r with pass := none }
  | scanned {pass : Pass N B S} {retries excluded fresh : List N}
      {pages : Option (List (List N))} : r.pass = some pass →
      pass.point = .scan retries excluded →
      StepCase r (.scanned pages)
        (r.setPass { pass with reports := retries ++ fresh, point := .next })
  | stopped {pass : Pass N B S} {now : Instant} {stamp : Option S} : r.pass = some pass →
      pass.sql = true → StepCase r (.visit true now stamp) (r.finish pass)
  | visit {pass : Pass N B S} {name : N} {reports : List N} {cancelled : Bool} {now : Instant}
      {stamp : Option S} : r.pass = some pass → pass.point = .next →
      pass.reports = name :: reports →
      StepCase r (.visit cancelled now stamp) (r.visit pass name reports now stamp)
  | finish {pass : Pass N B S} : r.pass = some pass → pass.point = .next → pass.reports = [] →
      StepCase r .finish (r.finish pass)
  | read {pass : Pass N B S} {visit : Visit N S} {kind : Kind} {bytes : B} :
      r.pass = some pass → pass.point = .read visit →
      StepCase r (.readReport (some (kind, bytes)))
        (r.setPass (pass.goto (.inspect visit kind bytes)))
  | unread {pass : Pass N B S} {visit : Visit N S} : r.pass = some pass →
      pass.point = .read visit → StepCase r (.readReport none) (r.discard pass visit.name)
  | inspect {pass : Pass N B S} {visit : Visit N S} {kind : Kind} {bytes : B} :
      r.pass = some pass → pass.point = .inspect visit kind bytes →
      StepCase r .inspect (r.inspect pass visit kind bytes)
  | retain {pass : Pass N B S} {visit : Visit N S} {kind : Kind} {bytes : B}
      {firstReceipt : Instant} {full : Bool} : r.pass = some pass →
      pass.point = .retain visit kind bytes firstReceipt full →
      StepCase r .retain (r.retain pass visit kind bytes firstReceipt full)
  | identityKept {pass : Pass N B S} {visit : Visit N S} {stamp : Option S} {outcome : Outcome} :
      r.pass = some pass → pass.point = .identity visit stamp →
      StepCase r (.applied outcome) (r.setPass ((pass.count outcome).goto .next))
  | identityDone {pass : Pass N B S} {visit : Visit N S} {stamp : Option S} {outcome : Outcome} :
      r.pass = some pass → pass.point = .identity visit stamp →
      StepCase r (.applied outcome) (r.discard (pass.count outcome) visit.name)
  | approval {pass : Pass N B S} {visit : Visit N S} {bytes : B} {firstReceipt : Instant}
      {outcome : Outcome} : r.pass = some pass →
      pass.point = .approval visit bytes firstReceipt →
      StepCase r (.applied outcome) (r.approvalApplied pass visit bytes firstReceipt outcome)
  | unlinkDone {pass : Pass N B S} {id : Nat} : r.pass = some pass → pass.point = .unlink id →
      StepCase r .unlinkDone (r.setPass (pass.goto .next))

theorem step_case {isReportFilename : N → Bool} {r r' : Relay N B S} {label : Label N B S}
    (h : r.step isReportFilename label = some r') : StepCase r label r' := by
  cases label with
  | begin sql =>
    simp only [Relay.step] at h
    split at h
    · rename_i hpass
      cases h
      exact .begin hpass
    · cases h
  | unlinkRan id gone =>
    simp only [Relay.step] at h
    obtain ⟨unlink, hfind, rfl⟩ := Option.map_eq_some_iff.mp h
    have hmem := mem_of_find?_eq_some hfind
    have hid : unlink.1 = id := by simpa using List.find?_some hfind
    subst hid
    exact .unlinkRan hmem
  | cancel =>
    simp only [Relay.step] at h
    obtain ⟨pass, -, rfl⟩ := Option.map_eq_some_iff.mp h
    exact .cancel
  | scanned pages =>
    simp only [Relay.step] at h
    obtain ⟨pass, hpass, h⟩ := Option.bind_eq_some_iff.mp h
    cases hpoint : pass.point with
    | scan retries excluded =>
      simp only [hpoint] at h
      cases h
      exact .scanned hpass hpoint
    | _ => simp [hpoint] at h
  | visit cancelled now stamp =>
    simp only [Relay.step] at h
    obtain ⟨pass, hpass, h⟩ := Option.bind_eq_some_iff.mp h
    cases hpoint : pass.point with
    | next =>
      simp only [hpoint] at h
      cases hreports : pass.reports with
      | nil => simp [hreports] at h
      | cons name reports =>
        simp only [hreports] at h
        split at h
        · rename_i hstop
          cases h
          obtain ⟨hsql, rfl⟩ := Bool.and_eq_true_iff.mp hstop
          exact .stopped hpass hsql
        · split at h
          · cases h
          · cases h
            exact .visit hpass hpoint hreports
    | _ => simp [hpoint] at h
  | finish =>
    simp only [Relay.step] at h
    obtain ⟨pass, hpass, h⟩ := Option.bind_eq_some_iff.mp h
    cases hpoint : pass.point with
    | next =>
      simp only [hpoint] at h
      cases hreports : pass.reports with
      | nil =>
        simp only [hreports] at h
        cases h
        exact .finish hpass hpoint hreports
      | cons name reports => simp [hreports] at h
    | _ => simp [hpoint] at h
  | readReport report =>
    simp only [Relay.step] at h
    obtain ⟨pass, hpass, h⟩ := Option.bind_eq_some_iff.mp h
    cases hpoint : pass.point with
    | read visit =>
      simp only [hpoint] at h
      cases report with
      | none =>
        cases h
        exact .unread hpass hpoint
      | some report =>
        cases h
        exact .read hpass hpoint
    | _ => simp [hpoint] at h
  | inspect =>
    simp only [Relay.step] at h
    obtain ⟨pass, hpass, h⟩ := Option.bind_eq_some_iff.mp h
    cases hpoint : pass.point with
    | inspect visit kind bytes =>
      simp only [hpoint] at h
      cases h
      exact .inspect hpass hpoint
    | _ => simp [hpoint] at h
  | retain =>
    simp only [Relay.step] at h
    obtain ⟨pass, hpass, h⟩ := Option.bind_eq_some_iff.mp h
    cases hpoint : pass.point with
    | retain visit kind bytes firstReceipt full =>
      simp only [hpoint] at h
      cases h
      exact .retain hpass hpoint
    | _ => simp [hpoint] at h
  | applied outcome =>
    simp only [Relay.step] at h
    obtain ⟨pass, hpass, h⟩ := Option.bind_eq_some_iff.mp h
    cases hpoint : pass.point with
    | identity visit stamp =>
      simp only [hpoint] at h
      split at h
      · cases h
        exact .identityKept hpass hpoint
      · cases h
        exact .identityDone hpass hpoint
    | approval visit bytes firstReceipt =>
      simp only [hpoint] at h
      cases h
      exact .approval hpass hpoint
    | _ => simp [hpoint] at h
  | unlinkDone =>
    simp only [Relay.step] at h
    obtain ⟨pass, hpass, h⟩ := Option.bind_eq_some_iff.mp h
    cases hpoint : pass.point with
    | unlink id =>
      simp only [hpoint] at h
      split at h
      · cases h
      · cases h
        exact .unlinkDone hpass hpoint
    | _ => simp [hpoint] at h

end steps

/-! ## What a step does to the book -/

/-- The pass has read the receipt time `t` for the report `n` and still uses it. -/
def Point.Holds (n : N) (t : Instant) : Point N B S → Prop
  | .retain visit _ _ firstReceipt _ => visit.name = n ∧ firstReceipt = t
  | .approval visit _ firstReceipt => visit.name = n ∧ firstReceipt = t
  | _ => False

def Relay.Holds (r : Relay N B S) (n : N) (t : Instant) : Prop :=
  ∃ pass, r.pass = some pass ∧ pass.point.Holds n t

/-- The step is an unlink of `n` that removed the file or found it missing. -/
def Removes (n : N) (r : Relay N B S) (label : Label N B S) : Prop :=
  ∃ id, label = .unlinkRan id true ∧ (id, n) ∈ r.unlinks

/-- From where an admitted receipt has its time and its stamp. -/
inductive Source (r : Relay N B S) (n : N) (e : PendingReceipt B S) : Prop where
  /-- `prepare_receipt`. -/
  | prepared (now : Instant) (stamp : S) :
      r.book.pending.length < maxPendingReceipts →
      e.firstReceipt = r.book.overflowFloor.getD now →
      e.observation = some (r.book.observationFloor.getD stamp) → Source r n e
  /-- `retain_receipt`. -/
  | retained (observation : Option S) :
      r.book.pending.length < maxPendingReceipts → r.Holds n e.firstReceipt →
      e.observation = r.book.observationFloor.or observation → Source r n e
  /-- The retry of an approval whose receipt is no longer there. -/
  | restored (pass : Pass N B S) (visit : Visit N S) (bytes : B) : r.pass = some pass →
      pass.point = .approval visit bytes e.firstReceipt → visit.name = n →
      e.observation = none → Source r n e

inductive BookMove [DecidableEq N] (r : Relay N B S) (label : Label N B S) :
    ReceiptBook N B S → Prop where
  /-- The receipts stay; a floor may be set. -/
  | floored (overflow : Option Instant) (observation : Option S) :
      BookMove r label { r.book with
        overflowFloor := r.book.overflowFloor.or overflow
        observationFloor := r.book.observationFloor.or observation }
  | rotated {sql : Bool} : label = .begin sql → BookMove r label r.book.takeRetries.2
  /-- What a receipt lacks is filled in. -/
  | updated {n : N} {e : PendingReceipt B S} (bytes : Option B) (observation : Option S) :
      r.book.pending.get n = some e →
      BookMove r label { r.book with
        pending := r.book.pending.set n { e with
          bytes := e.bytes.or bytes
          observation := e.observation.or (r.book.observationFloor.or observation) } }
  | admitted {n : N} {e : PendingReceipt B S} : n ∉ r.book.keys → Source r n e →
      BookMove r label (r.book.insert n e)
  | removed {n : N} : Removes n r label → BookMove r label (r.book.remove n)

section moves
variable [DecidableEq N] {r : Relay N B S} {label : Label N B S}

theorem BookMove.kept : BookMove r label r.book := by
  have h : BookMove r label _ := .floored none none
  rwa [Option.or_none, Option.or_none] at h

theorem prepareReceipt_move (n : N) (now : Instant) (stamp : S) :
    BookMove r label (r.book.prepareReceipt n now stamp) := by
  unfold ReceiptBook.prepareReceipt
  split
  · exact .kept
  · rename_i hnew
    split
    · have h : BookMove r label _ := .floored none (some stamp)
      rwa [Option.or_none] at h
    · rename_i hroom
      refine .admitted (fun hmem => hnew (contains_iff.mpr hmem)) ?_
      exact .prepared now stamp (Nat.lt_of_not_le hroom) rfl rfl

variable {t : Instant}

theorem retainReceipt_move [DecidableEq B] {n : N} (bytes : B) (approval : Bool)
    (observation : Option S) (hholds : r.Holds n t) :
    BookMove r label (r.book.retainReceipt n bytes t approval observation).1 := by
  unfold ReceiptBook.retainReceipt
  cases hget : r.book.pending.get n with
  | some e =>
    simp only
    split
    · exact .kept
    · exact .updated (some bytes) observation hget
  | none =>
    simp only
    split
    · cases approval with
      | false => exact .kept
      | true =>
        have h : BookMove r label _ := .floored (some t) none
        rwa [Option.or_none] at h
    · rename_i hroom
      refine .admitted (get_eq_none_iff.mp hget) ?_
      exact .retained observation (Nat.lt_of_not_le hroom) hholds rfl

theorem inspect_move [DecidableEq B] (pass : Pass N B S) (visit : Visit N S) (kind : Kind)
    (bytes : B) : BookMove r label (r.inspect pass visit kind bytes).book := by
  have hfloor : BookMove r label { r.book with
      overflowFloor := r.book.overflowFloor.or (some visit.receipt) } := by
    have h : BookMove r label _ := .floored (some visit.receipt) none
    rwa [Option.or_none] at h
  have hbook : (r.inspect pass visit kind bytes).book = r.book ∨
      (r.inspect pass visit kind bytes).book = { r.book with
        overflowFloor := r.book.overflowFloor.or (some visit.receipt) } := by
    unfold Relay.inspect
    dsimp only
    by_cases hfull : (!r.book.contains visit.name &&
        decide (maxPendingReceipts ≤ r.book.pending.length) && kind == Kind.approval) = true
    · right
      simp only [hfull, if_true]
      split
      · rfl
      · split <;> rfl
    · left
      simp only [hfull]
      split
      · rfl
      · split <;> rfl
  rcases hbook with hbook | hbook
  · rw [hbook]
    exact .kept
  · rw [hbook]
    exact hfloor

variable {pass : Pass N B S} {visit : Visit N S}

theorem retain_move [DecidableEq B] {kind : Kind} {bytes : B} {full : Bool}
    (hpass : r.pass = some pass) (hpoint : pass.point = .retain visit kind bytes t full) :
    BookMove r label (r.retain pass visit kind bytes t full).book := by
  have hholds : r.Holds visit.name t := by
    refine ⟨pass, hpass, ?_⟩
    rw [hpoint]
    exact ⟨rfl, rfl⟩
  have hretain : ∀ (approval : Bool) (observation : Option S),
      BookMove r label (r.book.retainReceipt visit.name bytes t approval observation).1 :=
    fun approval observation => retainReceipt_move bytes approval observation hholds
  unfold Relay.retain
  cases kind with
  | identity =>
    dsimp only
    split
    · split
      · exact .kept
      · split
        · exact hretain false visit.observation
        · exact hretain false visit.observation
    · exact hretain false visit.observation
  | approval =>
    dsimp only
    split
    · exact .kept
    · split
      · exact hretain true none
      · exact hretain true none

theorem approvalApplied_move [DecidableEq B] {bytes : B} (outcome : Outcome)
    (hpass : r.pass = some pass) (hpoint : pass.point = .approval visit bytes t) :
    BookMove r label (r.approvalApplied pass visit bytes t outcome).book := by
  unfold Relay.approvalApplied
  dsimp only
  split
  · show BookMove r label (ite _ _ _)
    split
    · exact .kept
    · rename_i hnew
      refine .admitted (fun hmem => hnew (contains_iff.mpr hmem)) ?_
      exact .restored pass visit bytes hpass hpoint rfl rfl
  · exact .kept

end moves

section steps
variable [LinearOrder N] [DecidableEq B]

theorem step_move {r r' : Relay N B S} {label : Label N B S} (h : StepCase r label r') :
    BookMove r label r'.book := by
  cases h with
  | begin hpass => exact .rotated rfl
  | @unlinkRan id name gone hmem =>
    cases gone with
    | true => exact .removed ⟨id, rfl, hmem⟩
    | false => exact .kept
  | @visit pass name reports cancelled now stamp hpass hpoint hreports =>
    cases stamp with
    | some stamp => exact prepareReceipt_move name now stamp
    | none => exact .kept
  | inspect hpass hpoint => exact inspect_move _ _ _ _
  | retain hpass hpoint => exact retain_move hpass hpoint
  | approval hpass hpoint => exact approvalApplied_move _ hpass hpoint
  | _ => exact .kept

end steps

end Orkworksd.HookReportRelay
