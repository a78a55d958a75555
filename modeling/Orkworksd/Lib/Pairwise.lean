import Mathlib.Data.List.Forall2

/- Two lists related item by item: from an item of one to its partner in the other, and a
   list of partners from a partner for each item. -/
namespace Orkworksd.Lib
open List

variable {β α : Type}

variable {R : α → β → Prop} {l' : List β} {l : List α}

theorem forall₂_mem_left (h : List.Forall₂ R l l') : ∀ a ∈ l, ∃ b ∈ l', R a b := by
  induction h with
  | nil => simp
  | cons hab _ ih =>
    intro x hx
    rcases mem_cons.mp hx with rfl | hx
    · exact ⟨_, mem_cons_self, hab⟩
    · obtain ⟨b, hb, hR⟩ := ih x hx
      exact ⟨b, mem_cons_of_mem _ hb, hR⟩

theorem forall₂_mem_right (h : List.Forall₂ R l l') : ∀ b ∈ l', ∃ a ∈ l, R a b :=
  forall₂_mem_left h.flip

theorem forall₂_exists (h : ∀ a ∈ l, ∃ b, R a b) : ∃ l', List.Forall₂ R l l' := by
  induction l with
  | nil => exact ⟨[], .nil⟩
  | cons a l ih =>
    obtain ⟨b, hb⟩ := h a mem_cons_self
    obtain ⟨l', hl'⟩ := ih (fun x hx => h x (mem_cons_of_mem _ hx))
    exact ⟨b :: l', .cons hb hl'⟩

end Orkworksd.Lib
