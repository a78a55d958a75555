import Mathlib.Algebra.Order.Ring.Int
import Std.Data.ExtTreeMap
import Std.Data.ExtTreeMap.Lemmas
import Mathlib.Data.List.Nodup
import Mathlib.Data.String.Basic
import Mathlib.Data.List.Perm.Subperm
import Mathlib.Algebra.Order.BigOperators.Group.List

/- Finite maps with text keys, `BTreeMap<String, _>`: extensional, iterated in key
   order. The lemmas restate the library's in terms of equality of keys, which for
   texts is what comparing equal means. -/
namespace Orkworksd.Lib
open List

abbrev TextMap (β : Type) : Type := Std.ExtTreeMap String β

namespace TextMap

variable {β : Type} {m m' : TextMap β} {k a : String} {v : β}

theorem compare_eq_iff (k a : String) : compare k a = .eq ↔ k = a :=
  Std.LawfulEqCmp.compare_eq_iff_eq

theorem get_insert : (m.insert k v)[a]? = if k = a then some v else m[a]? := by
  rw [Std.ExtTreeMap.getElem?_insert]
  simp only [compare_eq_iff]

theorem get_insert_self : (m.insert k v)[k]? = some v := by
  rw [get_insert, if_pos rfl]

theorem get_insert_ne (h : k ≠ a) : (m.insert k v)[a]? = m[a]? := by
  rw [get_insert, if_neg h]

theorem get_erase : (m.erase k)[a]? = if k = a then none else m[a]? := by
  rw [Std.ExtTreeMap.getElem?_erase]
  simp only [compare_eq_iff]

theorem get_erase_self : (m.erase k)[k]? = none := by
  rw [get_erase, if_pos rfl]

theorem get_erase_ne (h : k ≠ a) : (m.erase k)[a]? = m[a]? := by
  rw [get_erase, if_neg h]

theorem get_modify {f : β → β} : (m.modify k f)[a]? = if k = a then m[a]?.map f else m[a]? := by
  rw [Std.ExtTreeMap.getElem?_modify]
  simp only [compare_eq_iff]
  split
  · rename_i h; rw [h]
  · rfl

theorem get_empty : (∅ : TextMap β)[a]? = none := Std.ExtTreeMap.getElem?_empty

theorem ext (h : ∀ a : String, m[a]? = m'[a]?) : m = m' := Std.ExtTreeMap.ext_getElem? (fun {a} => h a)

theorem mem_toList {p : String × β} : p ∈ m.toList ↔ m[p.1]? = some p.2 := by
  obtain ⟨k, v⟩ := p
  exact Std.ExtTreeMap.mem_toList_iff_getElem?_eq_some

theorem mem_keys : k ∈ m.keys ↔ ∃ v, m[k]? = some v := by
  rw [Std.ExtTreeMap.mem_keys, ← Option.isSome_iff_exists]
  exact Std.ExtTreeMap.mem_iff_isSome_getElem?

theorem keys_nodup : m.keys.Nodup := by
  have h := Std.ExtTreeMap.distinct_keys (t := m)
  refine List.Pairwise.imp ?_ h
  intro x y hne heq
  exact hne ((compare_eq_iff x y).mpr heq)

theorem keys_empty : (∅ : TextMap β).keys = [] := by
  rw [eq_nil_iff_forall_not_mem]
  intro k hk
  obtain ⟨v, hv⟩ := mem_keys.mp hk
  rw [get_empty] at hv
  cases hv

theorem keys_singleton : ((∅ : TextMap β).insert k v).keys = [k] := by
  refine perm_singleton.mp ((perm_ext_iff_of_nodup keys_nodup (by simp)).mpr ?_)
  intro a
  rw [mem_keys, mem_singleton, get_insert, get_empty]
  split
  · rename_i h
    simp [h]
  · rename_i h
    simp [Ne.symm h]

theorem toList_singleton : ((∅ : TextMap β).insert k v).toList = [(k, v)] := by
  refine perm_singleton.mp ((perm_ext_iff_of_nodup ?_ (by simp)).mpr ?_)
  · refine List.Nodup.of_map Prod.fst ?_
    rw [Std.ExtTreeMap.map_fst_toList_eq_keys]
    exact keys_nodup
  · rintro ⟨a, b⟩
    rw [mem_toList, mem_singleton, get_insert, get_empty, Prod.mk.injEq]
    by_cases h : k = a
    · simp [h, eq_comm]
    · simp [h, Ne.symm h]

variable {γ : Type}

theorem get_map {f : String → β → γ} : (m.map f)[k]? = m[k]?.map (f k) :=
  Std.ExtTreeMap.getElem?_map

theorem get_filter {f : String → β → Bool} : (m.filter f)[k]? = m[k]?.filter (f k) :=
  Std.ExtTreeMap.getElem?_filter'

theorem get_filterMap {f : String → β → Option γ} : (m.filterMap f)[k]? = m[k]?.bind (f k) :=
  Std.ExtTreeMap.getElem?_filterMap'

variable {f : β → String} {l : List β}

theorem mem_of_get_foldl (h : (l.foldl (fun map v => map.insert (f v) v) m)[k]? = some v) :
    m[k]? = some v ∨ (v ∈ l ∧ f v = k) := by
  induction l generalizing m with
  | nil => exact .inl h
  | cons x l ih =>
    rcases ih h with hx | ⟨hmem, hkey⟩
    · rw [get_insert] at hx
      split at hx
      · rename_i hkey
        cases hx
        exact .inr ⟨mem_cons_self, hkey⟩
      · exact .inl hx
    · exact .inr ⟨mem_cons_of_mem _ hmem, hkey⟩

theorem get_foldl_of_notMem (h : k ∉ l.map f) :
    (l.foldl (fun map v => map.insert (f v) v) m)[k]? = m[k]? := by
  induction l generalizing m with
  | nil => rfl
  | cons x l ih =>
    rw [map_cons, mem_cons, not_or] at h
    rw [foldl_cons, ih h.2, get_insert_ne (Ne.symm h.1)]

theorem get_foldl_ne_none (h : k ∈ l.map f) :
    (l.foldl (fun map v => map.insert (f v) v) m)[k]? ≠ none := by
  induction l generalizing m with
  | nil => cases h
  | cons x l ih =>
    rw [foldl_cons]
    by_cases hk : k ∈ l.map f
    · exact ih hk
    · rw [map_cons, mem_cons] at h
      rw [get_foldl_of_notMem hk, h.resolve_right hk, get_insert_self]
      simp

theorem get_foldl_of_mem (hnd : (l.map f).Nodup) (h : v ∈ l) :
    (l.foldl (fun map v => map.insert (f v) v) m)[f v]? = some v := by
  induction l generalizing m with
  | nil => cases h
  | cons x l ih =>
    rw [map_cons, nodup_cons] at hnd
    rw [foldl_cons]
    rcases mem_cons.mp h with rfl | h
    · rw [get_foldl_of_notMem hnd.1, get_insert_self]
    · exact ih hnd.2 h

theorem toList_keys : m.toList.map Prod.fst = m.keys := Std.ExtTreeMap.map_fst_toList_eq_keys

theorem toList_empty : (∅ : TextMap β).toList = [] := by
  have h := toList_keys (m := (∅ : TextMap β))
  rw [keys_empty] at h
  exact map_eq_nil_iff.mp h

theorem keys_sorted : m.keys.Pairwise (· < ·) := by
  refine List.Pairwise.imp ?_ (Std.ExtTreeMap.ordered_keys (t := m))
  intro x y h
  exact compareOfLessAndEq_eq_lt.mp h

/-! ### Maps collected from pairs -/

theorem get_ofList {l : List (String × β)} (hnd : (l.map Prod.fst).Nodup) :
    (Std.ExtTreeMap.ofList l : TextMap β)[k]? = some v ↔ (k, v) ∈ l := by
  have hdistinct : l.Pairwise (fun a b => ¬ compare a.1 b.1 = .eq) := by
    rw [List.Nodup, pairwise_map] at hnd
    refine hnd.imp ?_
    intro a b hne heq
    exact hne ((compare_eq_iff _ _).mp heq)
  constructor
  · intro h
    have hmem : k ∈ (Std.ExtTreeMap.ofList l : TextMap β) :=
      Std.ExtTreeMap.mem_iff_isSome_getElem?.mpr (by rw [h]; rfl)
    rw [Std.ExtTreeMap.mem_ofList, contains_iff_mem] at hmem
    obtain ⟨⟨k', v'⟩, hin, rfl⟩ := mem_map.mp hmem
    rw [Std.ExtTreeMap.getElem?_ofList_of_mem ((compare_eq_iff k' k').mpr rfl) hdistinct hin] at h
    cases h
    exact hin
  · intro h
    exact Std.ExtTreeMap.getElem?_ofList_of_mem ((compare_eq_iff k k).mpr rfl) hdistinct h

/-! ### Sums over a map -/

/-- The weight a map gives to a key. -/
def weightAt (m : TextMap β) (w : String × β → Nat) (k : String) : Nat :=
  (m[k]?.map (fun v => w (k, v))).getD 0

theorem sum_toList (w : String × β → Nat) :
    (m.toList.map w).sum = (m.keys.map (m.weightAt w)).sum := by
  rw [← toList_keys, map_map]
  refine congrArg List.sum (map_congr_left ?_)
  rintro ⟨k, v⟩ hp
  simp only [Function.comp_apply, weightAt, mem_toList.mp hp, Option.map_some, Option.getD_some]

variable {n : TextMap γ}

/-- A map whose entries go, key by key, to heavier entries of another one weighs
no more than that one. -/
theorem sum_le {f : String → String} (hf : Function.Injective f) {w : String × β → Nat}
    {u : String × γ → Nat} (h : ∀ (k : String) (v : β), m[k]? = some v →
      ∃ v' : γ, n[f k]? = some v' ∧ w (k, v) ≤ u (f k, v')) :
    (m.toList.map w).sum ≤ (n.toList.map u).sum := by
  have hpoint : ∀ p ∈ m.toList, w p ≤ n.weightAt u (f p.1) := by
    rintro ⟨k, v⟩ hp
    obtain ⟨v', hv', hle⟩ := h k v (mem_toList.mp hp)
    simpa only [weightAt, hv', Option.map_some, Option.getD_some] using hle
  have hsub : List.Subperm (m.keys.map f) n.keys := by
    refine subperm_of_subset (keys_nodup.map hf) ?_
    intro k' hk'
    obtain ⟨k, hk, rfl⟩ := mem_map.mp hk'
    obtain ⟨v, hv⟩ := mem_keys.mp hk
    obtain ⟨v', hv', -⟩ := h k v hv
    exact mem_keys.mpr ⟨v', hv'⟩
  calc (m.toList.map w).sum
      ≤ (m.toList.map (fun p => n.weightAt u (f p.1))).sum := sum_le_sum hpoint
    _ = ((m.keys.map f).map (n.weightAt u)).sum := by
        rw [← toList_keys, map_map, map_map]
        rfl
    _ ≤ (n.keys.map (n.weightAt u)).sum := by
        obtain ⟨l, hperm, hsublist⟩ := hsub
        rw [← (hperm.map _).sum_eq]
        exact (hsublist.map _).sum_le_sum (by simp)
    _ = (n.toList.map u).sum := (sum_toList u).symm

theorem size_le {f : String → String} (hf : Function.Injective f)
    (h : ∀ (k : String) (v : β), m[k]? = some v → ∃ v' : γ, n[f k]? = some v') :
    m.size ≤ n.size := by
  have hsum := sum_le (m := m) (n := n) hf (w := fun _ => 1) (u := fun _ => 1) (by
    intro k v hv
    obtain ⟨v', hv'⟩ := h k v hv
    exact ⟨v', hv', Nat.le_refl 1⟩)
  simpa [map_const', Std.ExtTreeMap.length_toList] using hsum

end TextMap

end Orkworksd.Lib
