import Mathlib.Data.List.Sort
import Mathlib.Data.List.Nodup

/- Reading a list page by page.

   The list is strictly ordered by a key that descends, and a page starts behind the last
   item of the one before it. `filter_behind` says that what is left to read is what has not
   been shown, and `eq_of_same_members` that the order and the members leave no choice. -/
namespace Orkworksd.Lib
open List

variable {α κ : Type} [LinearOrder κ]

/-- Strictly descending keys. -/
def Descends (key : α → κ) (items : List α) : Prop :=
  items.Pairwise (fun a b => key b < key a)

namespace Descends

variable {key : α → κ} {items items' : List α}

theorem nodup (h : Descends key items) : items.Nodup := by
  refine List.Pairwise.imp ?_ h
  intro a b hlt heq
  subst heq
  exact lt_irrefl _ hlt

theorem filter (h : Descends key items) (p : α → Bool) : Descends key (items.filter p) :=
  List.Pairwise.filter p h

theorem filter_behind {shown rest : List α} {last : α}
    (h : Descends key (shown ++ rest)) (hlast : shown.getLast? = some last) :
    (shown ++ rest).filter (fun item => key item < key last) = rest := by
  obtain ⟨initial, rfl⟩ := List.getLast?_eq_some_iff.mp hlast
  obtain ⟨hshown, -, hbehind⟩ := pairwise_append.mp h
  obtain ⟨-, -, hahead⟩ := pairwise_append.mp hshown
  have hmem : last ∈ initial ++ [last] := mem_append_right _ (mem_singleton_self _)
  have hnone : (initial ++ [last]).filter (fun item => key item < key last) = [] := by
    apply filter_eq_nil_iff.mpr
    intro item hitem hlt
    have hlt : key item < key last := of_decide_eq_true hlt
    rcases mem_append.mp hitem with hinitial | hself
    · exact lt_asymm hlt (hahead item hinitial last (mem_singleton_self _))
    · rw [mem_singleton.mp hself] at hlt
      exact lt_irrefl _ hlt
  have hall : rest.filter (fun item => key item < key last) = rest := by
    apply filter_eq_self.mpr
    intro item hitem
    exact decide_eq_true (hbehind last hmem item hitem)
  rw [filter_append, hnone, hall, nil_append]

theorem eq_of_same_members (h : Descends key items) (h' : Descends key items')
    (hmem : ∀ item, item ∈ items ↔ item ∈ items') : items = items' := by
  have hperm : items.Perm items' :=
    (perm_ext_iff_of_nodup h.nodup h'.nodup).mpr (fun item => hmem item)
  refine hperm.eq_of_pairwise ?_ h h'
  intro a b _ _ hab hba
  exact absurd hba (lt_asymm hab)

end Descends

/-- The items in the order of their keys, the greatest first. -/
def descending (key : α → κ) (items : List α) : List α :=
  items.insertionSort (fun a b => key b ≤ key a)

theorem mem_descending {key : α → κ} {items : List α} {item : α} :
    item ∈ descending key items ↔ item ∈ items :=
  mem_insertionSort _

theorem descends_descending {key : α → κ} {items : List α} (h : (items.map key).Nodup) :
    Descends key (descending key items) := by
  have htotal : Std.Total (fun a b : α => key b ≤ key a) := ⟨fun a b => le_total _ _⟩
  have htrans : IsTrans α (fun a b : α => key b ≤ key a) := ⟨fun a b c hab hbc => hbc.trans hab⟩
  have hweak : (descending key items).Pairwise (fun a b => key b ≤ key a) :=
    pairwise_insertionSort _ items
  have hkeys : ((descending key items).map key).Nodup :=
    (((perm_insertionSort _ items).map key).nodup_iff).mpr h
  have hne : (descending key items).Pairwise (fun a b => key a ≠ key b) := pairwise_map.mp hkeys
  refine (hweak.and hne).imp ?_
  intro a b hab
  exact lt_of_le_of_ne hab.1 hab.2.symm

end Orkworksd.Lib
