import Mathlib.Algebra.Order.Ring.Int
import Mathlib.Data.List.Basic

/- Git's CRLF cleaning (`git_changes_eol.rs`, `Eol` and `Stats`) and the chunk of it that is
   carried over from read to read (`crlf_normalized_chunk` of `git_changes_fs.rs`).

   `strip` is what both come to: a carriage return before a line feed is left out. The cleaner
   moves bytes down in place (`compact_eq`), the chunks carry a carriage return that is not
   decided yet (`crlfNormalizedChunk_strip`), and the statistics count what is left out
   (`length_strip`). -/
namespace Orkworksd.GitChanges
open List

abbrev Bytes : Type := List UInt8

def carriageReturn : UInt8 := 0x0d

def lineFeed : UInt8 := 0x0a

/-! ## The source -/

inductive Eol where
  | raw
  | auto
  | autoIndexSame
  | text
  deriving DecidableEq, Repr

structure Stats where
  crlf : Nat
  cr : Nat
  nul : Bool
  printable : Nat
  control : Nat
  last : Option UInt8
  deriving DecidableEq, Repr

def Stats.empty : Stats := ⟨0, 0, false, 0, 0, none⟩

/-- The kind of a byte. -/
def Stats.count (stats : Stats) (b : UInt8) : Stats :=
  if b = carriageReturn then { stats with cr := stats.cr + 1 }
  else if b = lineFeed then stats
  else if b = 0 then { stats with nul := true, control := stats.control + 1 }
  else if b = 9 ∨ b = 8 ∨ b = 11 ∨ b = 12 ∨ b = 27 then
    { stats with printable := stats.printable + 1 }
  else if (32 ≤ b ∧ b ≤ 126) ∨ 128 ≤ b then { stats with printable := stats.printable + 1 }
  else { stats with control := stats.control + 1 }

/-- One byte of `Stats::add`. -/
def Stats.next (stats : Stats) (b : UInt8) : Stats :=
  let stats :=
    if stats.last = some carriageReturn ∧ b = lineFeed then { stats with crlf := stats.crlf + 1 }
    else stats
  { stats.count b with last := some b }

def Stats.add (stats : Stats) (bytes : Bytes) : Stats := bytes.foldl Stats.next stats

def Stats.binary (stats : Stats) : Bool :=
  stats.nul || stats.cr != stats.crlf ||
    decide (stats.printable / 2 ^ 7 < stats.control - (if stats.last = some 26 then 1 else 0))

def Eol.converts (eol : Eol) (stats : Stats) : Bool :=
  eol == .text || ((eol == .auto || eol == .autoIndexSame) && !stats.binary)

/-- One byte of the cleaning loop: the bytes, written in place, and the next place to write. -/
def compactStep (state : Bytes × Nat) (source : Nat) : Bytes × Nat :=
  if state.1[source]? = some carriageReturn ∧ state.1[source + 1]? = some lineFeed then state
  else (state.1.set state.2 (state.1.getD source 0), state.2 + 1)

/-- The loop, and `truncate`. -/
def compact (bytes : Bytes) : Bytes :=
  let state := (List.range bytes.length).foldl compactStep (bytes, 0)
  state.1.take state.2

def Eol.clean (eol : Eol) (bytes : Bytes) : Bytes :=
  if eol = .raw then bytes
  else if (eol = .auto ∨ eol = .autoIndexSame) ∧ (Stats.empty.add bytes).binary = true then bytes
  else compact bytes

/-- One byte of `crlf_normalized_chunk`: what is pushed, and whether a carriage return is
pending. -/
def normalizeByte (pendingCr : Bool) (b : UInt8) : Bytes × Bool :=
  let before := if pendingCr ∧ b ≠ lineFeed then [carriageReturn] else []
  if b = carriageReturn then (before, true) else (before ++ [b], false)

def crlfNormalizedChunk : Bool → Bytes → Bytes × Bool
  | pendingCr, [] => ([], pendingCr)
  | pendingCr, b :: bytes =>
    let first := normalizeByte pendingCr b
    let rest := crlfNormalizedChunk first.2 bytes
    (first.1 ++ rest.1, rest.2)

/-! ## What is left out -/

/-- Every carriage return before a line feed is left out. -/
def strip : Bytes → Bytes
  | [] => []
  | b :: rest =>
    if b = carriageReturn ∧ rest.head? = some lineFeed then strip rest else b :: strip rest

def pending (pendingCr : Bool) : Bytes := if pendingCr then [carriageReturn] else []

variable (pendingCr : Bool)

theorem crlfNormalizedChunk_append (x y : Bytes) : crlfNormalizedChunk pendingCr (x ++ y) =
      ((crlfNormalizedChunk pendingCr x).1 ++
          (crlfNormalizedChunk (crlfNormalizedChunk pendingCr x).2 y).1,
        (crlfNormalizedChunk (crlfNormalizedChunk pendingCr x).2 y).2) := by
  induction x generalizing pendingCr with
  | nil => rfl
  | cons b x ih =>
    rw [cons_append, crlfNormalizedChunk, ih, crlfNormalizedChunk]
    simp only [append_assoc]

theorem strip_byte (b : UInt8) (bytes : Bytes) : strip (pending pendingCr ++ b :: bytes) =
      (normalizeByte pendingCr b).1 ++ strip (pending (normalizeByte pendingCr b).2 ++ bytes) := by
  rw [normalizeByte]
  by_cases hcr : b = carriageReturn
  · have hlf : carriageReturn ≠ lineFeed := by decide
    cases pendingCr with
    | false => simp [hcr, pending]
    | true => simp [hcr, pending, hlf, strip]
  · cases pendingCr with
    | false => simp [hcr, pending, strip]
    | true =>
      by_cases hlf : b = lineFeed
      · simp [hlf, pending, strip, show lineFeed ≠ carriageReturn by decide]
      · simp [hcr, hlf, pending, strip]

variable (bytes : Bytes)

theorem crlfNormalizedChunk_strip :
    (crlfNormalizedChunk pendingCr bytes).1 ++ pending (crlfNormalizedChunk pendingCr bytes).2 =
      strip (pending pendingCr ++ bytes) := by
  induction bytes generalizing pendingCr with
  | nil => cases pendingCr <;> rfl
  | cons b bytes ih =>
    rw [crlfNormalizedChunk, strip_byte, ← ih, ← append_assoc]

/-! ## In place -/

/-- The loop of the cleaner before the byte at `source`: it has written below that byte what
is kept of those before it. -/
structure Compacting (bytes : Bytes) (source : Nat) (state : Bytes × Nat) : Prop where
  length : state.1.length = bytes.length
  below : state.2 ≤ source
  ahead : state.1.drop source = bytes.drop source
  kept : state.1.take state.2 ++ strip (bytes.drop source) = strip bytes

theorem Compacting.step {bytes : Bytes} {source : Nat} {state : Bytes × Nat}
    (h : Compacting bytes source state) (hsource : source < bytes.length) :
    Compacting bytes (source + 1) (compactStep state source) := by
  obtain ⟨hlength, hbelow, hahead, hkept⟩ := h
  obtain ⟨b, rest, hrest⟩ : ∃ b rest, bytes.drop source = b :: rest :=
    exists_cons_of_ne_nil (by simpa using hsource)
  have hnext : bytes.drop (source + 1) = rest := by
    rw [← drop_drop, hrest, drop_succ_cons, drop_zero]
  have hnow : state.1[source]? = some b := by
    rw [← List.head?_drop, hahead, hrest, List.head?_cons]
  have hthen : state.1[source + 1]? = rest.head? := by
    rw [← List.head?_drop, ← drop_drop, hahead, hrest, drop_succ_cons, drop_zero]
  have hdrop : state.1.drop (source + 1) = bytes.drop (source + 1) := by
    rw [← drop_drop, hahead, drop_drop]
  rw [hrest, strip] at hkept
  rw [compactStep, hnow, hthen]
  by_cases hskip : b = carriageReturn ∧ rest.head? = some lineFeed
  · rw [if_pos hskip] at hkept
    rw [if_pos ⟨congrArg some hskip.1, hskip.2⟩]
    refine ⟨hlength, Nat.le_succ_of_le hbelow, hdrop, ?_⟩
    rw [hnext, hkept]
  · rw [if_neg hskip] at hkept
    have hbyte : state.1.getD source 0 = b := by
      rw [getD_eq_getElem?_getD, hnow, Option.getD_some]
    rw [if_neg (fun h => hskip ⟨Option.some.inj h.1, h.2⟩), hbyte]
    refine ⟨?_, Nat.succ_le_succ hbelow, ?_, ?_⟩
    · rw [length_set, hlength]
    · rw [drop_set_of_lt (Nat.lt_succ_of_le hbelow), hdrop]
    · have hin : state.2 < state.1.length := by omega
      show (state.1.set state.2 b).take (state.2 + 1) ++ _ = _
      rw [take_add_one, List.getElem?_set_self hin, take_set_of_le (Nat.le_refl _), hnext,
        append_assoc]
      exact hkept

theorem compact_eq : compact bytes = strip bytes := by
  have hloop : ∀ count ≤ bytes.length,
      Compacting bytes count ((List.range count).foldl compactStep (bytes, 0)) := by
    intro count hcount
    induction count with
    | zero => exact ⟨rfl, Nat.le_refl 0, rfl, rfl⟩
    | succ count ih =>
      rw [range_succ, foldl_append]
      exact (ih (Nat.le_of_succ_le hcount)).step hcount
  have hkept := (hloop bytes.length (Nat.le_refl _)).kept
  rw [drop_length, strip, append_nil] at hkept
  exact hkept

/-! ## The statistics -/

variable (stats : Stats)

theorem Stats.add_append (x y : Bytes) : stats.add (x ++ y) = (stats.add x).add y := foldl_append

theorem Stats.next_last (b : UInt8) : (stats.next b).last = some b := rfl

theorem Stats.next_crlf (b : UInt8) : (stats.next b).crlf =
    stats.crlf + if stats.last = some carriageReturn ∧ b = lineFeed then 1 else 0 := by
  have hcount (stats : Stats) : (stats.count b).crlf = stats.crlf := by
    unfold Stats.count
    split
    · rfl
    split
    · rfl
    split
    · rfl
    split
    · rfl
    split <;> rfl
  show (Stats.count _ b).crlf = _
  rw [hcount]
  split <;> rfl

theorem normalizeByte_last (pendingCr : Bool) (b : UInt8) :
    (normalizeByte pendingCr b).2 = ((stats.next b).last == some carriageReturn) := by
  rw [normalizeByte, Stats.next_last]
  by_cases hcr : b = carriageReturn
  · rw [if_pos hcr, hcr]
    rfl
  · rw [if_neg hcr]
    simp [hcr]

theorem length_normalizeByte (b : UInt8) :
    (normalizeByte (stats.last == some carriageReturn) b).1.length +
        (pending (normalizeByte (stats.last == some carriageReturn) b).2).length +
        (stats.next b).crlf =
      stats.crlf + (pending (stats.last == some carriageReturn)).length + 1 := by
  rw [Stats.next_crlf, normalizeByte]
  have hne : carriageReturn ≠ lineFeed := by decide
  by_cases hlast : stats.last = some carriageReturn
  · by_cases hcr : b = carriageReturn
    · simp [hlast, hcr, hne, pending]
      omega
    · by_cases hlf : b = lineFeed
      · simp [hlast, hlf, hne.symm, pending]
        omega
      · simp [hlast, hcr, hlf, pending]
        omega
  · by_cases hcr : b = carriageReturn
    · simp [hlast, hcr, pending]
      omega
    · simp [hlast, hcr, pending]
      omega

theorem length_strip_add (bytes : Bytes) :
    (strip (pending (stats.last == some carriageReturn) ++ bytes)).length +
        (stats.add bytes).crlf =
      stats.crlf + (pending (stats.last == some carriageReturn)).length + bytes.length := by
  induction bytes generalizing stats with
  | nil =>
    rw [append_nil, length_nil, Nat.add_zero]
    show _ + stats.crlf = _
    cases stats.last == some carriageReturn <;> simp [pending, strip, Nat.add_comm]
  | cons b bytes ih =>
    have hbyte := length_normalizeByte stats b
    have hrest := ih (stats.next b)
    rw [← normalizeByte_last stats (stats.last == some carriageReturn) b] at hrest
    rw [strip_byte, length_append, length_cons]
    show _ + _ + ((stats.next b).add bytes).crlf = _
    omega

theorem length_strip : (strip bytes).length + (Stats.empty.add bytes).crlf = bytes.length := by
  have h := length_strip_add .empty bytes
  have hnone : (Stats.empty.last == some carriageReturn) = false := rfl
  rw [hnone] at h
  simpa [pending, Stats.empty] using h

theorem strip_sublist : List.Sublist (strip bytes) bytes := by
  induction bytes with
  | nil => exact List.Sublist.slnil
  | cons b bytes ih =>
    rw [strip]
    split
    · exact ih.cons b
    · exact ih.cons_cons b

theorem strip_of_crlf {bytes : Bytes} (h : (Stats.empty.add bytes).crlf = 0) :
    strip bytes = bytes := by
  have hlength := length_strip bytes
  exact (strip_sublist bytes).eq_of_length (by omega)

theorem Stats.next_cr (b : UInt8) :
    (stats.next b).cr = stats.cr + if b = carriageReturn then 1 else 0 := by
  have hcount (stats : Stats) :
      (stats.count b).cr = stats.cr + if b = carriageReturn then 1 else 0 := by
    unfold Stats.count
    by_cases hcr : b = carriageReturn
    · rw [if_pos hcr, if_pos hcr]
    · rw [if_neg hcr, if_neg hcr]
      split
      · rfl
      split
      · rfl
      split
      · rfl
      split <;> rfl
  show (Stats.count _ b).cr = _
  rw [hcount]
  split <;> rfl

theorem Stats.add_cr (bytes : Bytes) :
    (stats.add bytes).cr = stats.cr + bytes.count carriageReturn := by
  induction bytes generalizing stats with
  | nil => rfl
  | cons b bytes ih =>
    show ((stats.next b).add bytes).cr = _
    rw [ih, Stats.next_cr, count_cons]
    simp only [beq_iff_eq]
    omega

theorem count_strip : (strip bytes).count carriageReturn + (Stats.empty.add bytes).crlf =
      (Stats.empty.add bytes).cr := by
  have hothers : ∀ bytes : Bytes,
      (strip bytes).countP (fun b => ¬(b == carriageReturn)) =
        bytes.countP (fun b => ¬(b == carriageReturn)) := by
    intro bytes
    induction bytes with
    | nil => rfl
    | cons b bytes ih =>
      rw [strip]
      by_cases hskip : b = carriageReturn ∧ bytes.head? = some lineFeed
      · rw [if_pos hskip, ih, countP_cons_of_neg (by simp [hskip.1])]
      · rw [if_neg hskip, countP_cons, countP_cons, ih]
  have hlength := length_strip bytes
  have hkept := length_eq_countP_add_countP (· == carriageReturn) (l := strip bytes)
  have hall := length_eq_countP_add_countP (· == carriageReturn) (l := bytes)
  have hcr : (Stats.empty.add bytes).cr = 0 + bytes.count carriageReturn :=
    Stats.add_cr .empty bytes
  rw [hothers] at hkept
  show (strip bytes).countP (· == carriageReturn) + _ = _
  rw [hcr, List.count]
  omega

theorem not_mem_strip {bytes : Bytes} (h : (Stats.empty.add bytes).binary = false) :
    carriageReturn ∉ strip bytes := by
  have hcount := count_strip bytes
  have heven : (Stats.empty.add bytes).cr = (Stats.empty.add bytes).crlf := by
    simp only [Stats.binary, Bool.or_eq_false_iff, bne_eq_false_iff_eq] at h
    exact h.1.2
  exact count_eq_zero.mp (by omega)

theorem strip_of_not_mem {bytes : Bytes} (h : carriageReturn ∉ bytes) : strip bytes = bytes := by
  have hcount := count_strip bytes
  have hcr : (Stats.empty.add bytes).cr = 0 + bytes.count carriageReturn :=
    Stats.add_cr .empty bytes
  have hnone := count_eq_zero.mpr h
  exact strip_of_crlf (by omega)

theorem Eol.clean_eq (eol : Eol) (bytes : Bytes) :
    eol.clean bytes = if eol.converts (Stats.empty.add bytes) then strip bytes else bytes := by
  rw [Eol.clean, Eol.converts, compact_eq]
  cases eol with
  | raw => rfl
  | text => rfl
  | auto => cases (Stats.empty.add bytes).binary <;> rfl
  | autoIndexSame => cases (Stats.empty.add bytes).binary <;> rfl

end Orkworksd.GitChanges
