import Orkworksd.Lib.JsonSize
import Orkworksd.Taskmaster.Lineage
import Orkworksd.Taskmaster.Rollup

/- The evidence a rollup parent shows: `project_parent_evidence`.

   What is proved, for every list of member evidence:
     1. `projected_fits` — at most 64 entries, at most 128 KiB of JSON text.
     2. `projected_ids` — no observation id twice.
     3. `projected_again` — projecting the projection returns it.
     4. `projected_perm` — another order of the members and of their items gives the same
        projection, when items whose bounded ids are equal agree.

   The ids are cut to 256 characters before they are compared, so two observations whose ids
   differ only after that are one entry, and the list's order decides which. That is why (4)
   asks for agreement of the bounded items.

   The text of a confidence is a parameter: `number` stands for what serde_json writes for an
   `f64`. -/
namespace Orkworksd.Taskmaster
open Lib List TextMap

/-! ## The JSON text of evidence -/

/-- `ObservationKind::as_str`, which is also the name serde writes. -/
def observationKindName : ObservationKind → String
  | .repetition => "repetition"
  | .obstacle => "obstacle"
  | .missingContext => "missing_context"
  | .assumption => "assumption"
  | .correction => "correction"
  | .workaround => "workaround"
  | .verificationGap => "verification_gap"

def impactName : Impact → String
  | .low => "low"
  | .medium => "medium"
  | .high => "high"

def observationSourceName : ObservationSource → String
  | .agent => "agent"
  | .peon => "peon"

def optionalText : Option String → Json
  | none => .null
  | some text => .string text

/-- What serde writes for `WorkflowObservationEvidence`. -/
def evidenceJson (number : ℚ → String) (item : WorkflowObservationEvidence) : Json :=
  .object [
    ("observationId", .string item.observationId),
    ("sequence", .number (toString item.sequence)),
    ("sessionId", .string item.sessionId),
    ("kind", .string (observationKindName item.kind)),
    ("description", .string item.description),
    ("evidence", .string item.evidence),
    ("problemArea", optionalText item.problemArea),
    ("reportedImpact", .string (impactName item.reportedImpact)),
    ("source", .string (observationSourceName item.source)),
    ("confidence", .number (number item.confidence)),
    ("observedAt", .string item.observedAt)]

/-- `serialized_size` of a list of evidence. -/
def evidenceBytes (number : ℚ → String) (items : List WorkflowObservationEvidence) : Nat :=
  (Json.array (items.map (evidenceJson number))).bytes.length

/-! ## The order of evidence -/

section order
variable {a b c : WorkflowObservationEvidence}

theorem evidenceBefore_iff : evidenceBefore a b = true ↔
    b.reportedImpact.rank < a.reportedImpact.rank ∨
      (a.reportedImpact.rank = b.reportedImpact.rank ∧
        (b.sequence < a.sequence ∨
          (a.sequence = b.sequence ∧ a.observationId < b.observationId))) := by
  simp only [evidenceBefore, Bool.or_eq_true, Bool.and_eq_true, decide_eq_true_eq, beq_iff_eq]

theorem evidenceBefore_false : evidenceBefore a b = false ↔
    a.reportedImpact.rank < b.reportedImpact.rank ∨
      (a.reportedImpact.rank = b.reportedImpact.rank ∧
        (a.sequence < b.sequence ∨
          (a.sequence = b.sequence ∧ b.observationId ≤ a.observationId))) := by
  rw [← Bool.not_eq_true, evidenceBefore_iff]
  by_cases hid : a.observationId < b.observationId
  · simp only [hid, not_le.mpr hid, and_true, and_false, or_false]
    omega
  · simp only [hid, not_lt.mp hid, and_true, and_false, or_false]
    omega

theorem evidenceBefore_asymm (h : evidenceBefore a b = true) : evidenceBefore b a = false := by
  rw [evidenceBefore_false]
  rcases evidenceBefore_iff.mp h with h | ⟨hrank, h | ⟨hseq, h⟩⟩
  · exact .inl h
  · exact .inr ⟨hrank.symm, .inl h⟩
  · exact .inr ⟨hrank.symm, .inr ⟨hseq.symm, h.le⟩⟩

theorem evidenceBefore_total (h : a.observationId ≠ b.observationId)
    (hba : evidenceBefore b a = false) : evidenceBefore a b = true := by
  rw [evidenceBefore_iff]
  rcases evidenceBefore_false.mp hba with h' | ⟨hrank, h' | ⟨hseq, h'⟩⟩
  · exact .inl h'
  · exact .inr ⟨hrank.symm, .inl h'⟩
  · exact .inr ⟨hrank.symm, .inr ⟨hseq.symm, lt_of_le_of_ne h' h⟩⟩

theorem notAfter_trans (hab : evidenceBefore b a = false) (hbc : evidenceBefore c b = false) :
    evidenceBefore c a = false := by
  rw [evidenceBefore_false] at hab hbc ⊢
  rcases hab with hab | ⟨hrank, hab | ⟨hseq, hab⟩⟩
  · omega
  · omega
  · rcases hbc with hbc | ⟨hrank', hbc | ⟨hseq', hbc⟩⟩
    · omega
    · omega
    · exact .inr ⟨hrank'.trans hrank, .inr ⟨hseq'.trans hseq, hab.trans hbc⟩⟩

end order

/-! ## One entry per id -/

section bounded
variable {item : WorkflowObservationEvidence}

theorem truncateChars_idem (value : String) (limit : Nat) :
    truncateChars (truncateChars value limit) limit = truncateChars value limit := by
  simp only [truncateChars, String.toList_ofList, take_take, Nat.min_self]

theorem boundedEvidence_idem : boundedEvidence (boundedEvidence item) = boundedEvidence item := by
  have harea : (item.problemArea.map (fun value => truncateChars value 120)).map
      (fun value => truncateChars value 120) =
        item.problemArea.map (fun value => truncateChars value 120) := by
    cases item.problemArea with
    | none => rfl
    | some value => exact congrArg some (truncateChars_idem value 120)
  simp only [boundedEvidence, truncateChars_idem, harea]

end bounded

/-- What `unique` holds once the bounded `items` have been put in: for each of their ids one
of them, and none that comes before it. -/
structure Chosen (items : List WorkflowObservationEvidence)
    (unique : TextMap WorkflowObservationEvidence) : Prop where
  held : ∀ (id : String) (v : WorkflowObservationEvidence), unique[id]? = some v →
    v ∈ items ∧ v.observationId = id
  first : ∀ (id : String) (v : WorkflowObservationEvidence), unique[id]? = some v →
    ∀ b ∈ items, b.observationId = id → evidenceBefore b v = false
  covered : ∀ b ∈ items, ∃ v, unique[b.observationId]? = some v

section chosen
variable {items : List WorkflowObservationEvidence} {unique : TextMap WorkflowObservationEvidence}

theorem chosen_nil : Chosen [] ∅ := by
  refine ⟨?_, ?_, ?_⟩
  · intro id v hget
    rw [get_empty] at hget
    cases hget
  · intro id v hget
    rw [get_empty] at hget
    cases hget
  · intro b hb
    cases hb

theorem Chosen.insert (h : Chosen items unique) {bounded : WorkflowObservationEvidence}
    (hfirst : ∀ v, unique[bounded.observationId]? = some v → evidenceBefore v bounded = false) :
    Chosen (items ++ [bounded]) (unique.insert bounded.observationId bounded) := by
  refine ⟨?_, ?_, ?_⟩
  · intro id v hget
    rw [get_insert] at hget
    split at hget
    · rename_i hid
      cases hget
      exact ⟨mem_append_right _ mem_cons_self, hid⟩
    · exact ⟨mem_append_left _ (h.held id v hget).1, (h.held id v hget).2⟩
  · intro id v hget b hb hbid
    rw [get_insert] at hget
    split at hget
    · rename_i hid
      cases hget
      rcases mem_append.mp hb with hb | hb
      · -- the entry that was there is not after `b`, and `bounded` is not after it
        obtain ⟨old, hold⟩ := h.covered b hb
        rw [hbid, ← hid] at hold
        exact notAfter_trans (hfirst old hold) (h.first _ old hold b hb (hbid.trans hid.symm))
      · rw [mem_singleton.mp hb, evidenceBefore_false]
        exact .inr ⟨rfl, .inr ⟨rfl, le_refl _⟩⟩
    · rename_i hid
      rcases mem_append.mp hb with hb | hb
      · exact h.first id v hget b hb hbid
      · rw [mem_singleton.mp hb] at hbid
        exact absurd hbid hid
  · intro b hb
    rw [get_insert]
    split
    · exact ⟨bounded, rfl⟩
    · rename_i hid
      rcases mem_append.mp hb with hb | hb
      · exact h.covered b hb
      · rw [mem_singleton.mp hb] at hid
        exact absurd rfl hid

theorem Chosen.keep (h : Chosen items unique) {bounded old : WorkflowObservationEvidence}
    (hold : unique[bounded.observationId]? = some old)
    (hfirst : evidenceBefore bounded old = false) : Chosen (items ++ [bounded]) unique := by
  refine ⟨?_, ?_, ?_⟩
  · intro id v hget
    exact ⟨mem_append_left _ (h.held id v hget).1, (h.held id v hget).2⟩
  · intro id v hget b hb hbid
    rcases mem_append.mp hb with hb | hb
    · exact h.first id v hget b hb hbid
    · rw [mem_singleton.mp hb] at hbid ⊢
      rw [hbid, hget] at hold
      cases hold
      exact hfirst
  · intro b hb
    rcases mem_append.mp hb with hb | hb
    · exact h.covered b hb
    · rw [mem_singleton.mp hb]
      exact ⟨old, hold⟩

theorem insertEvidence_chosen (h : Chosen items unique) (item : WorkflowObservationEvidence) :
    Chosen (items ++ [boundedEvidence item]) (insertEvidence unique item) := by
  rw [insertEvidence]
  cases hold : unique[(boundedEvidence item).observationId]? with
  | none =>
    refine h.insert ?_
    intro v hv
    rw [hold] at hv
    cases hv
  | some old =>
    dsimp only
    split
    · rename_i hbefore
      refine h.insert ?_
      intro v hv
      rw [hold] at hv
      cases hv
      exact evidenceBefore_asymm hbefore
    · rename_i hbefore
      exact h.keep hold (Bool.not_eq_true _ ▸ hbefore)

theorem unique_chosen (evidence : List WorkflowObservationEvidence) (h : Chosen items unique) :
    Chosen (items ++ evidence.map boundedEvidence) (evidence.foldl insertEvidence unique) := by
  induction evidence generalizing items unique with
  | nil => rwa [map_nil, append_nil]
  | cons item evidence ih =>
    rw [map_cons, foldl_cons, append_cons]
    exact ih (insertEvidence_chosen h item)

end chosen

/-! ## The candidates -/

/-- The entries of `unique` in the order of evidence. -/
def evidenceCandidates (evidence : List WorkflowObservationEvidence) :
    List WorkflowObservationEvidence :=
  sortBy (fun left right => !evidenceBefore right left)
    (values (evidence.foldl insertEvidence ∅))

/-- Strictly in the order of evidence. -/
abbrev Ordered (items : List WorkflowObservationEvidence) : Prop :=
  items.Pairwise (fun a b => evidenceBefore a b = true)

/-- Items whose bounded ids are equal are equal once bounded. -/
def Agreeing (evidence : List WorkflowObservationEvidence) : Prop :=
  ∀ a ∈ evidence, ∀ b ∈ evidence,
    (boundedEvidence a).observationId = (boundedEvidence b).observationId →
      boundedEvidence a = boundedEvidence b

section candidates
variable {evidence evidence' : List WorkflowObservationEvidence} {v : WorkflowObservationEvidence}

theorem evidence_chosen (evidence : List WorkflowObservationEvidence) :
    Chosen (evidence.map boundedEvidence) (evidence.foldl insertEvidence ∅) := by
  have h := unique_chosen evidence chosen_nil
  rwa [nil_append] at h

theorem candidates_ids (evidence : List WorkflowObservationEvidence) :
    ((evidenceCandidates evidence).map (·.observationId)).Nodup := by
  have hkeys : (values (evidence.foldl insertEvidence ∅)).map (·.observationId) =
      (evidence.foldl insertEvidence ∅).keys := by
    rw [values, map_map, ← Std.ExtTreeMap.map_fst_toList_eq_keys]
    refine map_congr_left ?_
    intro entry hentry
    exact ((evidence_chosen evidence).held _ _ (mem_toList.mp hentry)).2
  refine (List.Perm.nodup_iff (sortBy_perm.map _)).mpr ?_
  rw [hkeys]
  exact keys_nodup

theorem candidates_bounded (h : v ∈ evidenceCandidates evidence) :
    v ∈ evidence.map boundedEvidence := by
  obtain ⟨id, hget⟩ := mem_values.mp (mem_sortBy.mp h)
  exact ((evidence_chosen evidence).held id v hget).1

theorem candidates_ordered (evidence : List WorkflowObservationEvidence) :
    Ordered (evidenceCandidates evidence) := by
  have hsorted : (evidenceCandidates evidence).Pairwise
      (fun a b => (!evidenceBefore b a) = true) := by
    refine pairwise_sortBy ?_ ?_
    · intro a b
      cases hab : evidenceBefore a b with
      | false => exact .inr rfl
      | true => exact .inl (by rw [evidenceBefore_asymm hab]; rfl)
    · intro a b c hab hbc
      rw [Bool.not_eq_true'] at hab hbc ⊢
      exact notAfter_trans hab hbc
  have hids : (evidenceCandidates evidence).Pairwise
      (fun a b => a.observationId ≠ b.observationId) :=
    pairwise_map.mp (candidates_ids evidence)
  refine List.Pairwise.imp ?_ (hsorted.and hids)
  intro a b hab
  exact evidenceBefore_total hab.2 ((Bool.not_eq_true' _).mp hab.1)

theorem Ordered.ext {items items' : List WorkflowObservationEvidence} (h : Ordered items)
    (h' : Ordered items') (hmem : ∀ v, v ∈ items ↔ v ∈ items') : items = items' := by
  have hnodup : ∀ {l : List WorkflowObservationEvidence}, Ordered l → l.Nodup := by
    intro l hl
    refine List.Pairwise.imp ?_ hl
    intro a b hab heq
    rw [heq] at hab
    exact Bool.noConfusion ((evidenceBefore_asymm hab).symm.trans hab)
  refine List.Perm.eq_of_pairwise ?_ h h' ((perm_ext_iff_of_nodup (hnodup h) (hnodup h')).mpr hmem)
  intro a b _ _ hab hba
  exact Bool.noConfusion ((evidenceBefore_asymm hab).symm.trans hba)

theorem mem_candidates (hagree : Agreeing evidence) :
    v ∈ evidenceCandidates evidence ↔ v ∈ evidence.map boundedEvidence := by
  refine ⟨candidates_bounded, ?_⟩
  intro hv
  obtain ⟨w, hget⟩ := (evidence_chosen evidence).covered v hv
  obtain ⟨hw, hid⟩ := (evidence_chosen evidence).held _ w hget
  obtain ⟨a, ha, rfl⟩ := mem_map.mp hv
  obtain ⟨b, hb, rfl⟩ := mem_map.mp hw
  rw [hagree a ha b hb hid.symm]
  exact mem_sortBy.mpr (mem_values.mpr ⟨_, hget⟩)

theorem candidates_perm (hperm : evidence.Perm evidence') (hagree : Agreeing evidence) :
    evidenceCandidates evidence' = evidenceCandidates evidence := by
  have hagree' : Agreeing evidence' := by
    intro a ha b hb
    exact hagree a (hperm.mem_iff.mpr ha) b (hperm.mem_iff.mpr hb)
  refine (candidates_ordered evidence').ext (candidates_ordered evidence) ?_
  intro v
  rw [mem_candidates hagree', mem_candidates hagree]
  exact (hperm.map boundedEvidence).mem_iff.symm

theorem candidates_again {items : List WorkflowObservationEvidence}
    (hsub : items.Sublist (evidenceCandidates evidence)) : evidenceCandidates items = items := by
  have hbounded : ∀ a ∈ items, boundedEvidence a = a := by
    intro a ha
    obtain ⟨b, _, rfl⟩ := mem_map.mp (candidates_bounded (hsub.subset ha))
    exact boundedEvidence_idem
  have hmap : items.map boundedEvidence = items :=
    (map_congr_left hbounded).trans (map_id _)
  have hids : (items.map (·.observationId)).Nodup :=
    (candidates_ids evidence).sublist (hsub.map _)
  have hagree : Agreeing items := by
    intro a ha b hb hid
    rw [hbounded a ha, hbounded b hb] at hid ⊢
    exact inj_on_of_nodup_map hids ha hb hid
  refine (candidates_ordered items).ext ((candidates_ordered evidence).sublist hsub) ?_
  intro v
  rw [mem_candidates hagree, hmap]

end candidates

/-! ## Filling the projection -/

section fill
variable {size : List WorkflowObservationEvidence → Nat}
  {projection candidates : List WorkflowObservationEvidence}

/-- Every prefix of `items` that has `projection` as a proper prefix keeps both limits. -/
def PrefixesFit (size : List WorkflowObservationEvidence → Nat)
    (projection items : List WorkflowObservationEvidence) : Prop :=
  ∀ part, part <+: items → projection.length < part.length →
    part.length ≤ maxParentEvidenceEntries ∧ size part ≤ maxParentEvidenceBytes

/-- What the loop returns: the projection it started with, then some of the candidates in
their order, within both limits at every step. -/
theorem fillProjection_spec (hlen : projection.length ≤ maxParentEvidenceEntries) :
    ∃ chosen, fillProjection size projection candidates = projection ++ chosen ∧
      chosen.Sublist candidates ∧ PrefixesFit size projection (projection ++ chosen) := by
  induction candidates generalizing projection with
  | nil =>
    refine ⟨[], (append_nil _).symm, .slnil, ?_⟩
    intro part hpart hlong
    rw [append_nil] at hpart
    exact absurd hpart.length_le (by omega)
  | cons candidate rest ih =>
    have hnone : PrefixesFit size projection (projection ++ []) := by
      intro part hpart hlong
      rw [append_nil] at hpart
      exact absurd hpart.length_le (by omega)
    rw [fillProjection]
    split
    · exact ⟨[], (append_nil _).symm, nil_sublist _, hnone⟩
    · rename_i hroom
      rw [beq_iff_eq] at hroom
      split
      · obtain ⟨chosen, heq, hsub, hfit⟩ := ih hlen
        exact ⟨chosen, heq, hsub.cons candidate, hfit⟩
      · rename_i hsize
        have hlen' : (projection ++ [candidate]).length ≤ maxParentEvidenceEntries := by
          rw [length_append, length_singleton]
          omega
        obtain ⟨chosen, heq, hsub, hfit⟩ := ih hlen'
        rw [append_assoc] at heq hfit
        refine ⟨candidate :: chosen, heq, hsub.cons_cons candidate, ?_⟩
        -- a prefix is the projection with the candidate, or longer
        intro part hpart hlong
        by_cases hone : (projection ++ [candidate]).length < part.length
        · exact hfit part hpart hone
        · have hpre : projection ++ [candidate] <+: projection ++ (candidate :: chosen) :=
            ⟨chosen, by rw [append_assoc]; rfl⟩
          have hpart' : part <+: projection ++ [candidate] :=
            prefix_of_prefix_length_le hpart hpre (by omega)
          have heqlen : part.length = (projection ++ [candidate]).length := by
            rw [length_append, length_singleton] at hone ⊢
            omega
          rw [hpart'.eq_of_length heqlen]
          exact ⟨hlen', by omega⟩

theorem fillProjection_all (hfit : PrefixesFit size projection (projection ++ candidates)) :
    fillProjection size projection candidates = projection ++ candidates := by
  induction candidates generalizing projection with
  | nil => rw [fillProjection, append_nil]
  | cons candidate rest ih =>
    have hpre : projection ++ [candidate] <+: projection ++ (candidate :: rest) :=
      ⟨rest, by rw [append_assoc]; rfl⟩
    have hnext := hfit _ hpre (by rw [length_append, length_singleton]; omega)
    rw [length_append, length_singleton] at hnext
    rw [fillProjection, if_neg (by rw [beq_iff_eq]; omega), if_neg (by omega), ih,
      append_assoc]
    · rfl
    · intro part hpart hlong
      rw [append_assoc] at hpart
      refine hfit part hpart ?_
      rw [length_append, length_singleton] at hlong
      omega

end fill

/-! ## The projection -/

section projection
variable (number : ℚ → String) (evidence : List WorkflowObservationEvidence)

theorem projectParentEvidence_eq (size : List WorkflowObservationEvidence → Nat) :
    projectParentEvidence size evidence = fillProjection size [] (evidenceCandidates evidence) :=
  rfl

theorem evidenceBytes_nil : evidenceBytes number [] = 2 := Json.length_bytes (.array [])

theorem projected_spec :
    (projectParentEvidence (evidenceBytes number) evidence).Sublist (evidenceCandidates evidence) ∧
      PrefixesFit (evidenceBytes number) []
        (projectParentEvidence (evidenceBytes number) evidence) := by
  have hempty : ([] : List WorkflowObservationEvidence).length ≤ maxParentEvidenceEntries :=
    Nat.zero_le _
  obtain ⟨chosen, heq, hsub, hfit⟩ := fillProjection_spec hempty
  rw [nil_append] at heq hfit
  rw [projectParentEvidence_eq, heq]
  exact ⟨hsub, hfit⟩

theorem projected_fits :
    (projectParentEvidence (evidenceBytes number) evidence).length ≤ maxParentEvidenceEntries ∧
      evidenceBytes number (projectParentEvidence (evidenceBytes number) evidence) ≤
        maxParentEvidenceBytes := by
  obtain ⟨-, hfit⟩ := projected_spec number evidence
  cases hnil : projectParentEvidence (evidenceBytes number) evidence with
  | nil =>
    rw [evidenceBytes_nil]
    exact ⟨by decide, by decide⟩
  | cons item rest =>
    rw [hnil] at hfit
    exact hfit _ (prefix_refl _) (Nat.succ_pos _)

theorem projected_ids :
    ((projectParentEvidence (evidenceBytes number) evidence).map (·.observationId)).Nodup :=
  (candidates_ids evidence).sublist ((projected_spec number evidence).1.map _)

theorem projected_again :
    projectParentEvidence (evidenceBytes number)
        (projectParentEvidence (evidenceBytes number) evidence) =
      projectParentEvidence (evidenceBytes number) evidence := by
  obtain ⟨hsub, hfit⟩ := projected_spec number evidence
  rw [projectParentEvidence_eq, candidates_again hsub]
  exact fillProjection_all hfit

theorem projected_perm {evidence evidence' : List WorkflowObservationEvidence}
    (hperm : evidence.Perm evidence') (hagree : Agreeing evidence) :
    projectParentEvidence (evidenceBytes number) evidence' =
      projectParentEvidence (evidenceBytes number) evidence := by
  rw [projectParentEvidence_eq, projectParentEvidence_eq, candidates_perm hperm hagree]

end projection

/-- The members in another order, and the items of each in another order. -/
def Reshuffled (members members' : List (List WorkflowObservationEvidence)) : Prop :=
  ∃ between, List.Forall₂ List.Perm members between ∧ between.Perm members'

theorem Reshuffled.flatten {members members' : List (List WorkflowObservationEvidence)}
    (h : Reshuffled members members') : members.flatten.Perm members'.flatten := by
  obtain ⟨between, hitems, hmembers⟩ := h
  have hflat : members.flatten.Perm between.flatten := by
    clear hmembers
    induction hitems with
    | nil => exact .nil
    | cons hperm _ ih => exact hperm.append ih
  exact hflat.trans hmembers.flatten

/-- Parent evidence is bounded and canonical: within both limits, without repeated ids,
unchanged by a second projection, and independent of the order of the members and of their
items where items with the same bounded id agree. -/
theorem parent_evidence_canonical (number : ℚ → String)
    (members : List (List WorkflowObservationEvidence)) :
    (projectParentEvidence (evidenceBytes number) members.flatten).length ≤
        maxParentEvidenceEntries ∧
      evidenceBytes number (projectParentEvidence (evidenceBytes number) members.flatten) ≤
        maxParentEvidenceBytes ∧
      ((projectParentEvidence (evidenceBytes number) members.flatten).map (·.observationId)).Nodup ∧
      projectParentEvidence (evidenceBytes number)
          (projectParentEvidence (evidenceBytes number) members.flatten) =
        projectParentEvidence (evidenceBytes number) members.flatten ∧
      ∀ members', Reshuffled members members' → Agreeing members.flatten →
        projectParentEvidence (evidenceBytes number) members'.flatten =
          projectParentEvidence (evidenceBytes number) members.flatten := by
  obtain ⟨hentries, hbytes⟩ := projected_fits number members.flatten
  refine ⟨hentries, hbytes, projected_ids number _, projected_again number _, ?_⟩
  intro members' hshuffle hagree
  exact projected_perm number hshuffle.flatten hagree

namespace Sample

/-- What serde_json writes for one half. -/
def half : ℚ → String := fun _ => "0.5"

/-- An observation of an agent in session `s`. -/
def observed (observationId description : String) : WorkflowObservationEvidence where
  observationId := observationId
  sequence := 7
  sessionId := "s"
  kind := .obstacle
  description := description
  evidence := "The build was run by hand"
  problemArea := some "build"
  reportedImpact := .medium
  source := .peon
  confidence := 1 / 2
  observedAt := "2026-01-01T00:00:00Z"

/-- An id of 257 characters; only the last one is `last`. -/
def longId (last : Char) : String := String.ofList (List.replicate 256 'o' ++ [last])

end Sample

open Sample

/-- Two members with one observation each, in either order. -/
theorem swapped_members_project_alike :
    Agreeing [[observed "o1" "first"], [observed "o2" "second"]].flatten ∧
      projectParentEvidence (evidenceBytes half)
          [[observed "o2" "second"], [observed "o1" "first"]].flatten =
        projectParentEvidence (evidenceBytes half)
          [[observed "o1" "first"], [observed "o2" "second"]].flatten := by
  have hagree : Agreeing
      [[observed "o1" "first"], [observed "o2" "second"]].flatten := by
    unfold Agreeing
    decide +kernel
  refine ⟨hagree, ?_⟩
  refine (parent_evidence_canonical half _).2.2.2.2 _ ⟨_, ?_, .swap _ _ []⟩ hagree
  exact .cons (.refl _) (.cons (.refl _) .nil)

theorem candidates_pair {a b : WorkflowObservationEvidence}
    (hid : (boundedEvidence b).observationId = (boundedEvidence a).observationId)
    (hbefore : evidenceBefore (boundedEvidence b) (boundedEvidence a) = false) :
    evidenceCandidates [a, b] = [boundedEvidence a] := by
  have hone : insertEvidence ∅ a = (∅ : TextMap WorkflowObservationEvidence).insert
      (boundedEvidence a).observationId (boundedEvidence a) := by
    rw [insertEvidence, get_empty]
  have htwo : insertEvidence (insertEvidence ∅ a) b = insertEvidence ∅ a := by
    rw [insertEvidence, hone, hid, get_insert_self]
    dsimp only
    rw [hbefore, if_neg Bool.false_ne_true]
  rw [evidenceCandidates, foldl_cons, foldl_cons, foldl_nil, htwo, hone, values, toList_singleton]
  rfl

theorem Sample.longId_bounded (last : Char) (description : String) :
    (boundedEvidence (observed (longId last) description)).observationId =
      String.ofList (List.replicate 256 'o') := by
  show truncateChars (longId last) 256 = _
  rw [truncateChars, longId, String.toList_ofList, take_left']
  exact length_replicate

theorem textSize_truncateChars (value : String) (limit : Nat) :
    JsonText.textSize (truncateChars value limit).toList ≤ 6 * limit := by
  have hle := JsonText.length_quote_le (value.toList.take limit)
  rw [JsonText.length_quote] at hle
  have htake : (value.toList.take limit).length ≤ limit := length_take_le _ _
  rw [truncateChars, String.toList_ofList]
  omega

theorem Sample.single_fits (observationId description : String) :
    evidenceBytes half [boundedEvidence (observed observationId description)] ≤
      maxParentEvidenceBytes := by
  have hid := textSize_truncateChars observationId 256
  have hdescription := textSize_truncateChars description 500
  have hempty : (evidenceJson half (boundedEvidence (observed "" ""))).size ≤ 1000 := by
    decide +kernel
  -- only the two texts that vary are not part of the constant
  have hitem : (evidenceJson half
      (boundedEvidence (observed observationId description))).size =
        JsonText.textSize (truncateChars observationId 256).toList +
          JsonText.textSize (truncateChars description 500).toList +
          (evidenceJson half (boundedEvidence (observed "" ""))).size := by
    have hnone : ∀ limit, JsonText.textSize (truncateChars "" limit).toList = 0 := by
      intro limit
      rw [truncateChars, String.toList_ofList, String.toList_empty, take_nil]
      rfl
    simp only [evidenceJson, boundedEvidence, observed, Json.size, Json.sizeMembers, hnone]
    omega
  rw [evidenceBytes, Json.length_bytes, map_singleton, Json.size_array, map_singleton,
    sum_singleton, length_singleton, hitem]
  have hmax : maxParentEvidenceBytes = 131072 := rfl
  omega

theorem Sample.project_pair (last other : Char) (description description' : String) :
    projectParentEvidence (evidenceBytes half)
        [observed (longId last) description,
          observed (longId other) description'] =
      [boundedEvidence (observed (longId last) description)] := by
  have hid := (longId_bounded other description').trans (longId_bounded last description).symm
  have himpact : ∀ id text, (boundedEvidence (observed id text)).reportedImpact = .medium :=
    fun _ _ => rfl
  have hsequence : ∀ id text, (boundedEvidence (observed id text)).sequence = 7 :=
    fun _ _ => rfl
  have hcandidates : evidenceCandidates [observed (longId last) description,
      observed (longId other) description'] =
        [boundedEvidence (observed (longId last) description)] := by
    refine candidates_pair hid (evidenceBefore_false.mpr (.inr ⟨?_, .inr ⟨?_, hid.symm.le⟩⟩))
    · rw [himpact, himpact]
    · rw [hsequence, hsequence]
  rw [projectParentEvidence_eq, hcandidates, fillProjection, if_neg (by decide),
    nil_append, if_neg (Nat.not_lt.mpr (single_fits _ _)), fillProjection]

/-- Two observations whose ids differ after the 256th character: no two items share an id, and
still the projection is the one that comes first in the list. -/
theorem cut_ids_depend_on_order :
    (∀ a ∈ [[observed (longId 'a') "first"],
          [observed (longId 'b') "second"]].flatten,
        ∀ b ∈ [[observed (longId 'a') "first"],
          [observed (longId 'b') "second"]].flatten,
          a.observationId = b.observationId → a = b) ∧
      Reshuffled [[observed (longId 'a') "first"],
          [observed (longId 'b') "second"]]
        [[observed (longId 'b') "second"],
          [observed (longId 'a') "first"]] ∧
      projectParentEvidence (evidenceBytes half)
          [[observed (longId 'b') "second"],
            [observed (longId 'a') "first"]].flatten ≠
        projectParentEvidence (evidenceBytes half)
          [[observed (longId 'a') "first"],
            [observed (longId 'b') "second"]].flatten := by
  refine ⟨?_, ⟨_, .cons (.refl _) (.cons (.refl _) .nil), .swap _ _ []⟩, ?_⟩
  · have hne : longId 'a' ≠ longId 'b' := by decide +kernel
    intro a ha b hb hid
    rcases mem_pair.mp ha with ha | ha
    · rcases mem_pair.mp hb with hb | hb
      · rw [ha, hb]
      · rw [ha, hb] at hid
        exact absurd hid hne
    · rcases mem_pair.mp hb with hb | hb
      · rw [ha, hb] at hid
        exact absurd hid.symm hne
      · rw [ha, hb]
  intro heq
  have hsecond := project_pair 'b' 'a' "second" "first"
  have hfirst := project_pair 'a' 'b' "first" "second"
  have hitems := hsecond.symm.trans (heq.trans hfirst)
  have hdescriptions := congrArg (fun items => items.map (·.description)) hitems
  revert hdescriptions
  decide +kernel

end Orkworksd.Taskmaster
