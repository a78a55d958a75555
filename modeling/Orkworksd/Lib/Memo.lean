import Orkworksd.Lib.OrderedMap

/- A table of results kept between calls.

   Each entry is what `Spec` says of its key. Looking a key up, and writing the result of a
   call down when it is not there, keeps that, as does dropping entries: what a table answers
   is then what the call would. -/
namespace Orkworksd.Lib.Memo
open OrderedMap

variable {α β : Type} [DecidableEq α]

/-- Every entry is as `Spec` says. -/
def Holds (Spec : α → β → Prop) (m : OrderedMap α β) : Prop :=
  ∀ k v, m.get k = some v → Spec k v

/-- The entry of a key, which is written down if there is none: the result and the table. -/
def lookUp (m : OrderedMap α β) (k : α) (v : β) : β × OrderedMap α β :=
  match m.get k with
  | some w => (w, m)
  | none => (v, m.set k v)

/-- The entries whose keys are kept. -/
def retain (kept : α → Bool) (m : OrderedMap α β) : OrderedMap α β :=
  m.filter (fun entry => kept entry.1)

variable {Spec : α → β → Prop} {m : OrderedMap α β} {k : α} {v : β}

theorem holds_nil : Holds Spec [] := fun _ v h => absurd h (Option.some_ne_none v).symm

theorem Holds.set (h : Holds Spec m) (hv : Spec k v) : Holds Spec (m.set k v) := by
  intro j w hget
  rw [get_set] at hget
  split at hget
  · next heq => exact heq ▸ Option.some.inj hget ▸ hv
  · exact h j w hget

theorem get_retain (kept : α → Bool) (m : OrderedMap α β) (k : α) :
    OrderedMap.get (retain kept m) k = if kept k then m.get k else none := by
  induction m with
  | nil => exact (ite_self none).symm
  | cons p m ih =>
    obtain ⟨j, w⟩ := p
    rw [retain, List.filter_cons]
    by_cases hj : kept j = true
    · rw [if_pos hj, OrderedMap.get, OrderedMap.get]
      by_cases hjk : j = k
      · rw [if_pos hjk, if_pos hjk, if_pos (hjk ▸ hj)]
      · rw [if_neg hjk, if_neg hjk]
        exact ih
    · rw [if_neg hj]
      refine ih.trans ?_
      by_cases hk : kept k = true
      · have hjk : j ≠ k := fun heq => hj (heq ▸ hk)
        rw [if_pos hk, if_pos hk, OrderedMap.get, if_neg hjk]
      · rw [if_neg hk, if_neg hk]

theorem Holds.retain (h : Holds Spec m) (kept : α → Bool) : Holds Spec (retain kept m) := by
  intro j w hget
  rw [get_retain] at hget
  split at hget
  · exact h j w hget
  · exact absurd hget (Option.some_ne_none w).symm

theorem Holds.lookUp (h : Holds Spec m) (hv : Spec k v) :
    Spec k (lookUp m k v).1 ∧ Holds Spec (lookUp m k v).2 := by
  rw [Memo.lookUp]
  cases hget : m.get k with
  | none => exact ⟨hv, h.set hv⟩
  | some w => exact ⟨h k w hget, h⟩

end Orkworksd.Lib.Memo
