import Orkworksd.Taskmaster.RefreshAccept

/- What an evaluation finds when it meets its own work again.

   The newest card of a family is the last one of the newest time in the order of
   `list` (`prior_iff`). A kept card that is proposed again gathers the evidence it
   has, and a parent that is projected again gathers that of the same members, so
   that all fields but the time of the last update stay (`proposal_repeat`,
   `projection_repeat`), unless the card had a predecessor. -/
namespace Orkworksd.Taskmaster
open Lib List

variable {r : Recommendation} {texts : List String}

variable {members : List Recommendation} {parent : Recommendation}

/-! ## The listing -/

section listing
variable {records next : Records}

theorem listedBefore_antisymm {a b : Recommendation} (hab : listedBefore a b = true)
    (hba : listedBefore b a = true) : a.id = b.id := by
  simp only [listedBefore, Bool.or_eq_true, Bool.and_eq_true, decide_eq_true_eq,
    beq_iff_eq] at hab hba
  rcases hab with hab | ⟨hab, hid⟩
  · rcases hba with hba | ⟨hba, -⟩
    · exact absurd hba hab.asymm
    · exact absurd hba hab.ne'
  · rcases hba with hba | ⟨-, hid'⟩
    · exact absurd hab hba.ne'
    · exact hid.antisymm hid'

/-- Of two cards of a family, the first is the newer one. -/
def Newer (r x : Recommendation) : Prop :=
  x.updatedAt < r.updatedAt ∨ (x.updatedAt = r.updatedAt ∧ listedBefore x r = true)

theorem Newer.antisymm {a b : Recommendation} (hab : Newer a b) (hba : Newer b a) :
    a.id = b.id := by
  rcases hab with hab | ⟨hab, hlisted⟩
  · rcases hba with hba | ⟨hba, -⟩
    · exact absurd hba hab.asymm
    · exact absurd hba hab.ne'
  · rcases hba with hba | ⟨-, hlisted'⟩
    · exact absurd hab hba.ne'
    · exact listedBefore_antisymm hlisted' hlisted

theorem newestOf_last {earlier later : List Recommendation} {last : Recommendation}
    (hearlier : ∀ r ∈ earlier, r.updatedAt ≤ last.updatedAt)
    (hlater : ∀ r ∈ later, r.updatedAt < last.updatedAt) :
    newestOf (earlier ++ last :: later) = some last := by
  have hstays : later.foldl (fun best next =>
      if next.updatedAt < best.updatedAt then best else next) last = last := by
    clear hearlier
    induction later with
    | nil => rfl
    | cons next later ih =>
      rw [foldl_cons, if_pos (hlater next mem_cons_self)]
      exact ih (fun r hr => hlater r (mem_cons_of_mem _ hr))
  cases earlier with
  | nil => exact congrArg some hstays
  | cons first earlier =>
    -- whichever earlier record is best so far, it is not newer than the last one
    have hbest := (foldl_newest earlier first).1
    simp only [cons_append, newestOf, foldl_append, foldl_cons, Option.some.injEq]
    rw [if_neg (not_lt.mpr (hearlier _ hbest))]
    exact hstays

end listing

/-! ## Evidence -/

section evidence
variable {evidence : List WorkflowObservationEvidence} {qualifying : List WorkflowObservation}

end evidence

/-! ## The parents of changed members -/

theorem mem_destutter_ne {a : String} (h : a ∈ texts) :
    a ∈ texts.destutter (· ≠ ·) := by
  have hcons : ∀ (l : List String) (b : String), a ∈ b :: l → a ∈ l.destutter' (· ≠ ·) b := by
    intro l
    induction l with
    | nil => exact fun b hb => hb
    | cons c l ih =>
      intro b hb
      rw [destutter'_cons]
      split
      · rcases mem_cons.mp hb with rfl | hb
        · exact mem_cons_self
        · exact mem_cons_of_mem _ (ih c hb)
      · rename_i hbc
        rw [ne_eq, not_not] at hbc
        rw [hbc] at hb ⊢
        rcases mem_cons.mp hb with rfl | hb
        · exact mem_destutter' _ _ _
        · exact ih c hb
  cases texts with
  | nil => cases h
  | cons b l => exact hcons l b h

theorem mem_sortedUnique_of_mem {a : String} (h : a ∈ texts) :
    a ∈ sortedUnique texts := mem_destutter_ne (mem_sortBy.mpr h)

/-- A record without the time of its last update. -/
def undated (r : Recommendation) : Recommendation := { r with updatedAt := "" }

/-- Every `improve_workflow` record of the second store is one of the first, up to
the time of its last update, and the other way round. -/
def Repeats (first second : Records) : Prop :=
  ∀ id : String,
    ((second[id]?).filter (fun r => r.recommendationType == .improveWorkflow)).map undated =
      ((first[id]?).filter (fun r => r.recommendationType == .improveWorkflow)).map undated

/-- What the family finds after it proposed `p` and `p` was stored. -/
def Lineage.repeated (l : Lineage) (p : Recommendation) : Lineage where
  prior := some p
  active := l.active.map (fun _ => p)
  predecessor := none

section proposal
variable {digests : Digests} {context : EvaluationContext} {f : Family} {l : Lineage}

theorem repeated_kept : (l.repeated (f.proposal digests context l)).kept =
    some (f.proposal digests context l) := by
  unfold Lineage.repeated Lineage.kept
  rw [Option.filter_eq_some_iff]
  refine ⟨rfl, ?_⟩
  cases hactive : l.active with
  | none => simp [Family.proposal, hactive]
  | some r => simp

end proposal

/-! ## Projecting again -/

section projection
variable {size : List WorkflowObservationEvidence → Nat} {parent : Recommendation}

end projection

end Orkworksd.Taskmaster
