import Mathlib.Data.List.Nodup
import Mathlib.Order.Lattice
import Mathlib.Data.List.Perm.Basic

/- A list sorted by a key and cut after its first entries: which keys are on which side. A key
   is among the first entries exactly where fewer than that many keys are below it, and among
   the others exactly where more than that many are not above it. -/
namespace Orkworksd.Lib
open List

variable {α β : Type} [LinearOrder β] (key : α → β)

/-- A stable sort. -/
def sortOn (l : List α) : List α := l.mergeSort (fun a b => decide (key a ≤ key b))

theorem sortOn_perm (l : List α) : (sortOn key l).Perm l := mergeSort_perm l _

@[simp] theorem sortOn_nil : sortOn key [] = [] := mergeSort_nil

variable {key}

variable {l : List α}

theorem mem_sortOn {a : α} : a ∈ sortOn key l ↔ a ∈ l := (sortOn_perm key l).mem_iff

variable (key) in
theorem sortOn_pairwise (l : List α) : (sortOn key l).Pairwise (fun a b => key a ≤ key b) := by
  have htrans (a b c : α) (hab : decide (key a ≤ key b) = true)
      (hbc : decide (key b ≤ key c) = true) : decide (key a ≤ key c) = true :=
    decide_eq_true (le_trans (of_decide_eq_true hab) (of_decide_eq_true hbc))
  have htotal (a b : α) : (decide (key a ≤ key b) || decide (key b ≤ key a)) = true := by
    rw [Bool.or_eq_true, decide_eq_true_iff, decide_eq_true_iff]
    exact le_total _ _
  exact (pairwise_mergeSort htrans htotal l).imp of_decide_eq_true

theorem sortOn_eq_self (h : l.Pairwise (fun a b => key a ≤ key b)) : sortOn key l = l :=
  mergeSort_of_pairwise (h.imp decide_eq_true)

theorem key_mem_take (hsorted : l.Pairwise (fun a b => key a ≤ key b)) (count : Nat) (k : β) :
    (∃ a ∈ l.take count, key a = k) ↔
      (∃ a ∈ l, key a = k) ∧ l.countP (fun a => key a < k) < count := by
  induction l generalizing count with
  | nil => simp
  | cons x l ih =>
    obtain ⟨hx, hl⟩ := pairwise_cons.mp hsorted
    cases count with
    | zero => simp
    | succ count =>
      rw [take_succ_cons]
      by_cases hlt : key x < k
      · -- the entry is below the key: it is on neither side of the question
        have hne : key x ≠ k := hlt.ne
        rw [countP_cons_of_pos (by simpa using hlt), Nat.add_lt_add_iff_right]
        simpa [hne] using ih hl count
      · have hnone : l.countP (fun a => key a < k) = 0 :=
          countP_eq_zero.mpr (fun a ha h =>
            hlt (lt_of_le_of_lt (hx a ha) (of_decide_eq_true h)))
        rw [countP_cons_of_neg (by simpa using hlt), hnone]
        by_cases heq : key x = k
        · simp [heq]
        · -- all that follow are above it
          have habsent : ∀ a ∈ l, key a ≠ k := fun a ha h =>
            heq (le_antisymm (h ▸ hx a ha) (le_of_not_gt hlt))
          have htaken : ∀ a ∈ l.take count, key a ≠ k := fun a ha =>
            habsent a (mem_of_mem_take ha)
          simp only [mem_cons, exists_eq_or_imp, heq, false_or]
          exact ⟨fun ⟨a, ha, h⟩ => absurd h (htaken a ha),
            fun ⟨⟨a, ha, h⟩, _⟩ => absurd h (habsent a ha)⟩

theorem key_mem_drop (hsorted : l.Pairwise (fun a b => key a ≤ key b)) (count : Nat) (k : β) :
    (∃ a ∈ l.drop count, key a = k) ↔
      (∃ a ∈ l, key a = k) ∧ count < l.countP (fun a => key a ≤ k) := by
  induction l generalizing count with
  | nil => simp
  | cons x l ih =>
    obtain ⟨hx, hl⟩ := pairwise_cons.mp hsorted
    cases count with
    | zero =>
      rw [drop_zero, countP_pos_iff]
      refine ⟨fun ⟨a, ha, h⟩ => ⟨⟨a, ha, h⟩, a, ha, decide_eq_true h.le⟩, And.left⟩
    | succ count =>
      rw [drop_succ_cons, ih hl count]
      by_cases hle : key x ≤ k
      · rw [countP_cons_of_pos (by simpa using hle), Nat.add_lt_add_iff_right]
        refine ⟨fun ⟨⟨a, ha, h⟩, hcount⟩ => ⟨⟨a, mem_cons_of_mem x ha, h⟩, hcount⟩, ?_⟩
        intro ⟨⟨a, ha, h⟩, hcount⟩
        refine ⟨?_, hcount⟩
        cases mem_cons.mp ha with
        | inr ha => exact ⟨a, ha, h⟩
        | inl ha =>
          -- one that follows is not above the key, and not below it either
          obtain ⟨b, hb, hbk⟩ := countP_pos_iff.mp (Nat.zero_lt_of_lt hcount)
          exact ⟨b, hb, le_antisymm (of_decide_eq_true hbk) (h ▸ ha ▸ hx b hb)⟩
      · rw [countP_cons_of_neg (by simpa using hle)]
        have hnone : ¬count < l.countP (fun a => key a ≤ k) := by
          have hzero : l.countP (fun a => key a ≤ k) = 0 :=
            countP_eq_zero.mpr (fun a ha h => hle (le_trans (hx a ha) (of_decide_eq_true h)))
          omega
        have hnone' : ¬count + 1 < l.countP (fun a => key a ≤ k) := by omega
        exact ⟨fun h => absurd h.2 hnone, fun h => absurd h.2 hnone'⟩

end Orkworksd.Lib
