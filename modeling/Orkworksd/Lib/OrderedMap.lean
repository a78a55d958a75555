import Mathlib.Data.List.Nodup

/- Maps that remember the order in which their keys were first inserted, as the `Map`
   of a script engine does: writing a key that is present keeps its place, a new key
   goes to the end, and a deleted key loses its place. -/
namespace Orkworksd.Lib
open List

/-- Entries in insertion order. -/
abbrev OrderedMap (α β : Type) : Type := List (α × β)

namespace OrderedMap

variable {α β : Type}

def empty : OrderedMap α β := []

def keys (m : OrderedMap α β) : List α := List.map Prod.fst m

/-- The sum of the values' weights. -/
def total (weight : β → Int) : OrderedMap α β → Int
  | [] => 0
  | (_, v) :: m => weight v + total weight m

variable {weight : β → Int}

theorem total_nonneg (h : ∀ v, 0 ≤ weight v) (m : OrderedMap α β) : 0 ≤ total weight m := by
  induction m with
  | nil => exact Int.le_refl 0
  | cons p m ih => exact Int.add_nonneg (h p.2) ih

variable [DecidableEq α]

def get : OrderedMap α β → α → Option β
  | [], _ => none
  | (j, v) :: m, k => if j = k then some v else get m k

def set : OrderedMap α β → α → β → OrderedMap α β
  | [], k, v => [(k, v)]
  | (j, w) :: m, k, v => if j = k then (k, v) :: m else (j, w) :: set m k v

def erase (m : OrderedMap α β) (k : α) : OrderedMap α β := m.filter (fun entry => entry.1 ≠ k)

/-- `none` where the key is not present. -/
def delete : OrderedMap α β → α → Option (OrderedMap α β)
  | [], _ => none
  | (j, w) :: m, k => if j = k then some m else (delete m k).map ((j, w) :: ·)

variable {m m' : OrderedMap α β} {k j : α} {v : β}

theorem get_isSome_iff : (get m k).isSome = true ↔ k ∈ keys m := by
  induction m with
  | nil => simp [get, keys]
  | cons p m ih =>
    obtain ⟨j, w⟩ := p
    rw [get]
    split
    · rename_i h
      simp [keys, h]
    · rename_i h
      rw [ih]
      simp [keys, Ne.symm h]

theorem get_eq_none_iff : get m k = none ↔ k ∉ keys m := by
  rw [← get_isSome_iff]
  simp

theorem get_set : get (set m k v) j = if k = j then some v else get m j := by
  induction m with
  | nil => rfl
  | cons p m ih =>
    obtain ⟨i, w⟩ := p
    rw [set]
    split
    · rename_i h
      rw [get, get, h]
      split <;> rfl
    · rename_i h
      rw [get, get, ih]
      split
      · rename_i hij
        rw [if_neg (fun hkj => h (hij.trans hkj.symm))]
      · rfl

theorem keys_set_of_mem (h : k ∈ keys m) : keys (set m k v) = keys m := by
  induction m with
  | nil => cases h
  | cons p m ih =>
    obtain ⟨i, w⟩ := p
    rw [set]
    split
    · rename_i heq
      rw [← heq]
      rfl
    · rename_i hne
      have hmem : k ∈ keys m := by
        rcases mem_cons.mp h with heq | hmem
        · exact absurd heq.symm hne
        · exact hmem
      exact congrArg (i :: ·) (ih hmem)

theorem keys_set_of_notMem (h : k ∉ keys m) : keys (set m k v) = keys m ++ [k] := by
  induction m with
  | nil => rfl
  | cons p m ih =>
    obtain ⟨i, w⟩ := p
    have hne : i ≠ k := fun heq => h (heq ▸ mem_cons_self)
    have hmem : k ∉ keys m := fun hk => h (mem_cons_of_mem i hk)
    rw [set, if_neg hne]
    exact congrArg (i :: ·) (ih hmem)

theorem nodup_keys_set (h : (keys m).Nodup) : (keys (set m k v)).Nodup := by
  by_cases hk : k ∈ keys m
  · rw [keys_set_of_mem hk]
    exact h
  · rw [keys_set_of_notMem hk]
    refine nodup_append.mpr ⟨h, nodup_singleton k, ?_⟩
    intro a ha b hb hab
    rw [mem_singleton] at hb
    exact hk (hb ▸ hab ▸ ha)

theorem get_erase : get (erase m k) j = if k = j then none else get m j := by
  unfold erase
  induction m with
  | nil =>
    rw [filter_nil]
    split <;> rfl
  | cons p m ih =>
    obtain ⟨i, v⟩ := p
    rw [filter_cons]
    by_cases hi : i = k
    · rw [if_neg (by simpa using hi), ih, get]
      subst hi
      by_cases hj : i = j
      · rw [if_pos hj, if_pos hj]
      · rw [if_neg hj, if_neg hj, if_neg hj]
    · rw [if_pos (by simpa using hi), get, get, ih]
      by_cases hij : i = j
      · rw [if_pos hij, if_pos hij, if_neg (fun heq => hi (hij.trans heq.symm))]
      · rw [if_neg hij, if_neg hij]

theorem nodup_keys_erase (h : (keys m).Nodup) : (keys (erase m k)).Nodup := by
  exact h.sublist (List.Sublist.map Prod.fst filter_sublist)

theorem delete_of_mem (hnd : (keys m).Nodup) (h : k ∈ keys m) :
    ∃ m', delete m k = some m' ∧ keys m' = (keys m).filter (· ≠ k) ∧
      ∀ j, get m' j = if k = j then none else get m j := by
  induction m with
  | nil => cases h
  | cons p m ih =>
    obtain ⟨i, w⟩ := p
    have hnd' : i ∉ keys m ∧ (keys m).Nodup := nodup_cons.mp hnd
    rw [delete]
    by_cases hik : i = k
    · subst hik
      refine ⟨m, by rw [if_pos rfl], ?_, ?_⟩
      · have hsame : (keys m).filter (· ≠ i) = keys m := by
          rw [filter_eq_self]
          intro a ha
          simpa using fun heq : a = i => hnd'.1 (heq ▸ ha)
        change keys m = (i :: keys m).filter (· ≠ i)
        rw [filter_cons, if_neg (by simp), hsame]
      · intro j
        rw [get]
        split
        · rename_i hij
          rw [← hij]
          exact get_eq_none_iff.mpr hnd'.1
        · rfl
    · have hmem : k ∈ keys m := by
        rcases mem_cons.mp h with heq | hmem
        · exact absurd heq.symm hik
        · exact hmem
      obtain ⟨m', hdelete, hkeys, hget⟩ := ih hnd'.2 hmem
      refine ⟨(i, w) :: m', by rw [if_neg hik, hdelete]; rfl, ?_, ?_⟩
      · change i :: keys m' = (i :: keys m).filter (· ≠ k)
        rw [filter_cons, if_pos (by simpa using hik), hkeys]
      · intro j
        rw [get, get, hget]
        split
        · rename_i hij
          rw [if_neg (fun hkj => hik (hij.trans hkj.symm))]
        · rfl

theorem filterMap_get_keys (hnd : (keys m).Nodup) : (keys m).filterMap (get m) = List.map Prod.snd m := by
  induction m with
  | nil => rfl
  | cons p m ih =>
    obtain ⟨i, w⟩ := p
    have hnd' : i ∉ keys m ∧ (keys m).Nodup := nodup_cons.mp hnd
    have hrest : (keys m).filterMap (get ((i, w) :: m)) = (keys m).filterMap (get m) := by
      refine filterMap_congr ?_
      intro a ha
      rw [get, if_neg (fun heq : i = a => hnd'.1 (heq ▸ ha))]
    change (i :: keys m).filterMap (get ((i, w) :: m)) = w :: List.map Prod.snd m
    rw [filterMap_cons, hrest, ih hnd'.2]
    simp [get]

theorem total_set_of_get {w : β} (h : get m k = some w) :
    total weight (set m k v) = total weight m - weight w + weight v := by
  induction m with
  | nil => cases h
  | cons p m ih =>
    obtain ⟨i, u⟩ := p
    rw [get] at h
    rw [set]
    by_cases hi : i = k
    · rw [if_pos hi] at h
      cases h
      rw [if_pos hi]
      show weight v + total weight m = weight w + total weight m - weight w + weight v
      omega
    · rw [if_neg hi] at h
      rw [if_neg hi]
      show weight u + total weight (set m k v) = weight u + total weight m - weight w + weight v
      rw [ih h]
      omega

theorem total_set_of_notMem (h : k ∉ keys m) :
    total weight (set m k v) = total weight m + weight v := by
  induction m with
  | nil =>
    show weight v + 0 = 0 + weight v
    omega
  | cons p m ih =>
    obtain ⟨i, u⟩ := p
    have hi : i ≠ k := fun heq => h (mem_cons.mpr (.inl heq.symm))
    rw [set, if_neg hi]
    show weight u + total weight (set m k v) = weight u + total weight m + weight v
    rw [ih (fun hmem => h (mem_cons_of_mem i hmem))]
    omega

theorem total_eq_zero (hnodup : (keys m).Nodup) (h : ∀ k v, get m k = some v → weight v = 0) :
    total weight m = 0 := by
  induction m with
  | nil => rfl
  | cons p m ih =>
    obtain ⟨i, u⟩ := p
    have hu : weight u = 0 := h i u (if_pos rfl)
    have hi : i ∉ keys m := (nodup_cons.mp hnodup).1
    have hrest : total weight m = 0 := by
      apply ih (nodup_cons.mp hnodup).2
      intro k v hk
      refine h k v ?_
      have hne : i ≠ k := by
        intro heq
        subst heq
        exact hi (get_isSome_iff.mp (by rw [hk]; rfl))
      exact (if_neg hne).trans hk
    show weight u + total weight m = 0
    rw [hu, hrest]
    rfl

end OrderedMap

end Orkworksd.Lib
