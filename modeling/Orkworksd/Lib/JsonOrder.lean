import Mathlib.Data.List.Perm.Basic
import Orkworksd.Lib.JsonFields

/- Values that differ in the order of their members only.

   `Reordered` says it without sorting: at every depth the members of one object are a
   permutation of the other's. Where every object has each of its keys once (`Distinct`), it is
   the same as equal sorted values (`reordered_of_sorted`, `sorted_of_reordered`). -/
namespace Orkworksd.Lib.Json
open List

mutual
/-- No object has a key twice. -/
def Distinct : Json → Prop
  | .array items => DistinctItems items
  | .object members => (OrderedMap.keys members).Nodup ∧ DistinctMembers members
  | _ => True

def DistinctItems : List Json → Prop
  | [] => True
  | item :: items => item.Distinct ∧ DistinctItems items

def DistinctMembers : List (String × Json) → Prop
  | [] => True
  | (_, value) :: members => value.Distinct ∧ DistinctMembers members
end

mutual
/-- The values are equal up to the order of the members of their objects. -/
inductive Reordered : Json → Json → Prop where
  | null : Reordered .null .null
  | bool (value : Bool) : Reordered (.bool value) (.bool value)
  | number (text : String) : Reordered (.number text) (.number text)
  | string (text : String) : Reordered (.string text) (.string text)
  | array {items items' : List Json} (h : ReorderedItems items items') :
      Reordered (.array items) (.array items')
  | object {members permuted members' : List (String × Json)} (hperm : members.Perm permuted)
      (h : ReorderedMembers permuted members') : Reordered (.object members) (.object members')

inductive ReorderedItems : List Json → List Json → Prop where
  | nil : ReorderedItems [] []
  | cons {item item' : Json} {items items' : List Json} (h : Reordered item item')
      (hs : ReorderedItems items items') : ReorderedItems (item :: items) (item' :: items')

inductive ReorderedMembers : List (String × Json) → List (String × Json) → Prop where
  | nil : ReorderedMembers [] []
  | cons (key : String) {value value' : Json} {members members' : List (String × Json)}
      (h : Reordered value value') (hs : ReorderedMembers members members') :
      ReorderedMembers ((key, value) :: members) ((key, value') :: members')
end

mutual
/-- The value with every float zero positive: the one number that serde_json writes in two
ways and holds equal. -/
def positiveZeros : Json → Json
  | .number text => .number (if text = "-0.0" then "0.0" else text)
  | .array items => .array (positiveZeroItems items)
  | .object members => .object (positiveZeroMembers members)
  | value => value

def positiveZeroItems : List Json → List Json
  | [] => []
  | item :: items => item.positiveZeros :: positiveZeroItems items

def positiveZeroMembers : List (String × Json) → List (String × Json)
  | [] => []
  | (key, value) :: members => (key, value.positiveZeros) :: positiveZeroMembers members
end

/-! ## Equal when sorted -/

variable (members : List (String × Json))

theorem sortedMembers_eq : sortedMembers members = members.map (fun m => (m.1, m.2.sorted)) := by
  induction members with
  | nil => rfl
  | cons member members ih => rw [sortedMembers, map_cons, ih]

variable {members' : List (String × Json)}

theorem perm_of_sorted {members : List (String × Json)}
    (h : sortMembers (sortedMembers members) = sortMembers (sortedMembers members')) :
    ∃ permuted, members.Perm permuted ∧ sortedMembers permuted = sortedMembers members' := by
  have hperm : (sortedMembers members').Perm (sortedMembers members) :=
    ((sortMembers_perm _).symm.trans (h ▸ sortMembers_perm (sortedMembers members)))
  have hgraph : List.Forall₂ (fun x (m : String × Json) => x = (m.1, m.2.sorted))
      (sortedMembers members) members := by
    rw [sortedMembers_eq]
    exact forall₂_map_left_iff.mpr (forall₂_same.mpr fun _ _ => rfl)
  obtain ⟨permuted, hforall, hsame⟩ := perm_comp_forall₂ hperm hgraph
  refine ⟨permuted, hsame.symm, ?_⟩
  rw [sortedMembers_eq permuted]
  clear hsame
  generalize sortedMembers members' = images at hforall
  induction hforall with
  | nil => rfl
  | cons heq _ ih => rw [map_cons, ih, heq]

theorem reorderedMembers_of {members : List (String × Json)}
    (hvalues : ∀ m ∈ members, ∀ w : Json, m.2.sorted = w.sorted → Reordered m.2 w)
    (h : sortedMembers members = sortedMembers members') : ReorderedMembers members members' := by
  induction members generalizing members' with
  | nil =>
    cases members' with
    | nil => exact .nil
    | cons member' members' => cases h
  | cons member members ih =>
    cases members' with
    | nil => cases h
    | cons member' members' =>
      obtain ⟨key, value⟩ := member
      obtain ⟨key', value'⟩ := member'
      simp only [sortedMembers, List.cons.injEq, Prod.mk.injEq] at h
      obtain ⟨⟨rfl, hvalue⟩, hrest⟩ := h
      refine .cons key (hvalues (key, value) mem_cons_self value' hvalue) (ih ?_ hrest)
      exact fun m hm => hvalues m (mem_cons_of_mem _ hm)

mutual
theorem reordered_of_sorted (v : Json) (w : Json) (h : v.sorted = w.sorted) : Reordered v w := by
  match v, w with
  | .null, .null => exact .null
  | .bool value, .bool _ =>
    cases h
    exact .bool value
  | .number text, .number _ =>
    cases h
    exact .number text
  | .string text, .string _ =>
    cases h
    exact .string text
  | .array items, .array items' =>
    simp only [sorted, Json.array.injEq] at h
    exact .array (reorderedItems_of_sorted items items' h)
  | .object members, .object members' =>
    simp only [sorted, Json.object.injEq] at h
    obtain ⟨permuted, hperm, hsame⟩ := perm_of_sorted h
    refine .object hperm (reorderedMembers_of (fun m hm => ?_) hsame)
    exact reorderedValues_of_sorted members m (hperm.mem_iff.mpr hm)

theorem reorderedItems_of_sorted (items items' : List Json)
    (h : sortedItems items = sortedItems items') : ReorderedItems items items' := by
  match items, items' with
  | [], [] => exact .nil
  | item :: items, item' :: items' =>
    simp only [sortedItems, List.cons.injEq] at h
    exact .cons (reordered_of_sorted item item' h.1) (reorderedItems_of_sorted items items' h.2)

theorem reorderedValues_of_sorted (members : List (String × Json)) (m : String × Json)
    (hm : m ∈ members) (w : Json) (h : m.2.sorted = w.sorted) : Reordered m.2 w := by
  match members with
  | [] => cases hm
  | (key, value) :: members =>
    rcases mem_cons.mp hm with rfl | hm
    · exact reordered_of_sorted value w h
    · exact reorderedValues_of_sorted members m hm w h
end

/-! ## Sorted when reordered -/

theorem distinctMembers_iff : DistinctMembers members ↔ ∀ m ∈ members, m.2.Distinct := by
  induction members with
  | nil => simp [DistinctMembers]
  | cons member members ih => simp only [DistinctMembers, ih, forall_mem_cons]

theorem sortMembers_congr {m m' : Members} (h : m.Perm m') (hkeys : (OrderedMap.keys m).Nodup) :
    sortMembers m = sortMembers m' := by
  have hperm : (sortMembers m).Perm (sortMembers m') :=
    ((sortMembers_perm m).trans h).trans (sortMembers_perm m').symm
  have hsorted : ∀ n : Members, (sortMembers n).Pairwise (fun a b => a.1 ≤ b.1) :=
    fun n => pairwise_insertionSort _ n
  refine hperm.eq_of_pairwise ?_ (hsorted m) (hsorted m')
  intro a b ha hb hab hba
  have ha' : a ∈ m := (sortMembers_perm m).mem_iff.mp ha
  have hb' : b ∈ m := h.mem_iff.mpr ((sortMembers_perm m').mem_iff.mp hb)
  have hkey : a.1 = b.1 := String.le_antisymm hab hba
  exact inj_on_of_nodup_map hkeys ha' hb' hkey

mutual
theorem sorted_of_reordered {v w : Json} (h : Reordered v w) (hv : v.Distinct) :
    v.sorted = w.sorted := by
  cases h with
  | null => rfl
  | bool _ => rfl
  | number _ => rfl
  | string _ => rfl
  | array h => rw [sorted, sorted, sortedItems_of_reordered h hv]
  | @object members permuted members' hperm h =>
    obtain ⟨hkeys, hmembers⟩ := hv
    have hpermuted : DistinctMembers permuted := by
      rw [distinctMembers_iff] at hmembers ⊢
      exact fun m hm => hmembers m (hperm.mem_iff.mpr hm)
    have hsort : (sortedMembers members).Perm (sortedMembers permuted) := by
      rw [sortedMembers_eq, sortedMembers_eq]
      exact hperm.map _
    rw [sorted, sorted, ← sortedMembers_of_reordered h hpermuted,
      sortMembers_congr hsort (by rw [keys_sortedMembers]; exact hkeys)]

theorem sortedItems_of_reordered {items items' : List Json} (h : ReorderedItems items items')
    (hv : DistinctItems items) : sortedItems items = sortedItems items' := by
  cases h with
  | nil => rfl
  | cons h hs =>
    rw [sortedItems, sortedItems, sorted_of_reordered h hv.1, sortedItems_of_reordered hs hv.2]

theorem sortedMembers_of_reordered {members members' : List (String × Json)}
    (h : ReorderedMembers members members') (hv : DistinctMembers members) :
    sortedMembers members = sortedMembers members' := by
  cases h with
  | nil => rfl
  | cons key h hs =>
    rw [sortedMembers, sortedMembers, sorted_of_reordered h hv.1,
      sortedMembers_of_reordered hs hv.2]
end

/-! ## Equality of values -/

mutual
theorem same_iff (v w : Json) : same v w = true ↔ v = w := by
  match v, w with
  | .array xs, .array ys =>
    rw [same, sameItems_iff xs ys]
    exact ⟨congrArg Json.array, Json.array.inj⟩
  | .object xs, .object ys =>
    rw [same, sameMembers_iff xs ys]
    exact ⟨congrArg Json.object, Json.object.inj⟩
  | .null, w => cases w <;> simp [same]
  | .bool x, w => cases w <;> simp [same]
  | .number x, w => cases w <;> simp [same]
  | .string x, w => cases w <;> simp [same]
  | .array xs, .null | .array xs, .bool _ | .array xs, .number _ | .array xs, .string _
  | .array xs, .object _ => simp [same]
  | .object xs, .null | .object xs, .bool _ | .object xs, .number _ | .object xs, .string _
  | .object xs, .array _ => simp [same]

theorem sameItems_iff (xs ys : List Json) : sameItems xs ys = true ↔ xs = ys := by
  match xs, ys with
  | [], [] => simp [sameItems]
  | [], y :: ys => simp [sameItems]
  | x :: xs, [] => simp [sameItems]
  | x :: xs, y :: ys =>
    rw [sameItems, Bool.and_eq_true, same_iff x y, sameItems_iff xs ys, List.cons.injEq]

theorem sameMembers_iff (xs ys : List (String × Json)) : sameMembers xs ys = true ↔ xs = ys := by
  match xs, ys with
  | [], [] => simp [sameMembers]
  | [], y :: ys => simp [sameMembers]
  | x :: xs, [] => simp [sameMembers]
  | (k, x) :: xs, (j, y) :: ys =>
    rw [sameMembers, Bool.and_eq_true, Bool.and_eq_true, beq_iff_eq, same_iff x y,
      sameMembers_iff xs ys, List.cons.injEq, Prod.mk.injEq]
end

/-- Equality of two values, which does not see the order of members. -/
def equal (v w : Json) : Bool := same v.sorted w.sorted

theorem equal_iff {v w : Json} (hv : v.Distinct) : equal v w = true ↔ Reordered v w := by
  rw [equal, same_iff]
  exact ⟨reordered_of_sorted v w, fun h => sorted_of_reordered h hv⟩

end Orkworksd.Lib.Json
