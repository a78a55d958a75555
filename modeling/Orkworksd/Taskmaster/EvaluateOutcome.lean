import Orkworksd.Taskmaster.RefreshRepeat

/- What the evaluator's answer depends on, and what it never does.

   Order. The observations are grouped in a hash map, every group is sorted by
   sequence and the proposals are sorted by dedupe key. Sequence numbers tell the
   observations of a group apart and dedupe keys the proposals, so neither the
   order of the observations nor the order in which the map is visited shows in
   the result (`evaluation_order_independent`).

   Resurrection. A family whose newest record has ended is proposed again only
   for an observation that record did not cite, and one whose newest record was
   dismissed only past its watermark (`no_resurrection`). -/
namespace Orkworksd.Taskmaster
open Lib List

variable {last : Recommendation}

/-! ## The order of the observations -/

section order
variable {observations permuted : List WorkflowObservation}

theorem family_perm (hperm : observations.Perm permuted)
    (hseq : (observations.map (·.sequence)).Nodup) (fingerprint : String) :
    family observations fingerprint = family permuted fingerprint := by
  unfold family
  rw [Family.mk.injEq]
  refine ⟨rfl, sortBy_congr (hperm.filter _) ?_ ?_ ?_⟩
  · intro a b
    simpa using Nat.le_total a.sequence b.sequence
  · intro a b c hab hbc
    simp only [decide_eq_true_eq] at hab hbc ⊢
    exact Nat.le_trans hab hbc
  · intro a ha b hb hab hba
    simp only [decide_eq_true_eq] at hab hba
    exact inj_on_of_nodup_map hseq (mem_filter.mp ha).1 (mem_filter.mp hb).1
      (Nat.le_antisymm hab hba)

theorem families_perm (hperm : observations.Perm permuted)
    (hseq : (observations.map (·.sequence)).Nodup) :
    (families observations).Perm (families permuted) := by
  unfold families
  have hsame : family observations = family permuted := by
    funext fingerprint
    exact family_perm hperm hseq fingerprint
  rw [hsame]
  exact (((hperm.filter _).map _).dedup).map _

/-- `groups.entry(fingerprint).or_default().push(observation)`. -/
def pushObservation : List Family → WorkflowObservation → List Family
  | [], observation => [⟨observation.fingerprint, [observation]⟩]
  | group :: rest, observation =>
    if group.fingerprint == observation.fingerprint then
      { group with qualifying := group.qualifying ++ [observation] } :: rest
    else group :: pushObservation rest observation

/-- The loop that fills the hash map. -/
def groups (observations : List WorkflowObservation) : List Family :=
  observations.foldl (fun groups observation =>
    if observationQualifies observation then pushObservation groups observation else groups) []

/-- `qualifying.sort_by_key(|observation| observation.sequence)`. -/
def Family.sorted (group : Family) : Family :=
  { group with qualifying := sortBy (fun a b => a.sequence ≤ b.sequence) group.qualifying }

/-- The evaluator when its hash map is visited in the order `visited`. -/
def evaluateGroups (digests : Digests) (context : EvaluationContext) (visited : List Family)
    (existing : List Recommendation) : List Recommendation :=
  sortBy (fun left right => left.dedupeKey ≤ right.dedupeKey)
    ((visited.map Family.sorted).filterMap (fun family =>
      evaluateFamily digests context family (lineage existing family.dedupeKey)))

variable {observation : WorkflowObservation} {collected : List Family}

theorem mem_pushObservation_fingerprint {fingerprint : String} :
    fingerprint ∈ (pushObservation collected observation).map (·.fingerprint) ↔
      fingerprint ∈ collected.map (·.fingerprint) ∨ fingerprint = observation.fingerprint := by
  induction collected with
  | nil => simp [pushObservation]
  | cons group rest ih =>
    rw [pushObservation]
    split
    · rename_i heq
      rw [beq_iff_eq] at heq
      rw [map_cons, map_cons, mem_cons, ← heq]
      constructor
      · exact .inl
      · intro h
        rcases h with h | h
        · exact h
        · exact .inl h
    · rw [map_cons, map_cons, mem_cons, mem_cons, ih, or_assoc]

theorem pushObservation_nodup (h : (collected.map (·.fingerprint)).Nodup) :
    ((pushObservation collected observation).map (·.fingerprint)).Nodup := by
  induction collected with
  | nil => simp [pushObservation]
  | cons group rest ih =>
    rw [map_cons, nodup_cons] at h
    rw [pushObservation]
    split
    · rw [map_cons, nodup_cons]
      exact h
    · rename_i hne
      rw [map_cons, nodup_cons]
      refine ⟨?_, ih h.2⟩
      intro hmem
      rcases mem_pushObservation_fingerprint.mp hmem with hmem | heq
      · exact h.1 hmem
      · exact hne (beq_iff_eq.mpr heq)

theorem mem_pushObservation (hnodup : (collected.map (·.fingerprint)).Nodup) {group : Family}
    (h : group ∈ pushObservation collected observation) :
    (group ∈ collected ∧ group.fingerprint ≠ observation.fingerprint) ∨
    (∃ old ∈ collected, old.fingerprint = observation.fingerprint ∧
      group = { old with qualifying := old.qualifying ++ [observation] }) ∨
    ((∀ old ∈ collected, old.fingerprint ≠ observation.fingerprint) ∧
      group = ⟨observation.fingerprint, [observation]⟩) := by
  induction collected with
  | nil =>
    simp only [pushObservation, mem_singleton] at h
    exact .inr (.inr ⟨by simp, h⟩)
  | cons first rest ih =>
    rw [map_cons, nodup_cons] at hnodup
    rw [pushObservation] at h
    split at h
    · rename_i heq
      rw [beq_iff_eq] at heq
      rcases mem_cons.mp h with rfl | hmem
      · exact .inr (.inl ⟨first, mem_cons_self, heq, rfl⟩)
      · refine .inl ⟨mem_cons_of_mem _ hmem, ?_⟩
        intro hfp
        exact hnodup.1 (mem_map.mpr ⟨group, hmem, hfp.trans heq.symm⟩)
    · rename_i hne
      rw [beq_iff_eq] at hne
      rcases mem_cons.mp h with rfl | hmem
      · exact .inl ⟨mem_cons_self, hne⟩
      · rcases ih hnodup.2 hmem with ⟨hold, hfp⟩ | ⟨old, hold, hfp, heq⟩ | ⟨hnew, heq⟩
        · exact .inl ⟨mem_cons_of_mem _ hold, hfp⟩
        · exact .inr (.inl ⟨old, mem_cons_of_mem _ hold, hfp, heq⟩)
        · refine .inr (.inr ⟨?_, heq⟩)
          intro old hold
          rcases mem_cons.mp hold with rfl | hold
          · exact hne
          · exact hnew old hold

/-- What the hash map holds after the observations `seen`. -/
structure Grouped (seen : List WorkflowObservation) (collected : List Family) : Prop where
  nodup : (collected.map (·.fingerprint)).Nodup
  keys : ∀ fingerprint, fingerprint ∈ collected.map (·.fingerprint) ↔
    fingerprint ∈ (seen.filter observationQualifies).map (·.fingerprint)
  members : ∀ group ∈ collected, group.qualifying = seen.filter (fun observation =>
    observationQualifies observation && observation.fingerprint == group.fingerprint)

theorem Grouped.push {seen : List WorkflowObservation} (h : Grouped seen collected)
    (hq : observationQualifies observation = true) :
    Grouped (seen ++ [observation]) (pushObservation collected observation) where
  nodup := pushObservation_nodup h.nodup
  keys := by
    intro fingerprint
    rw [mem_pushObservation_fingerprint, h.keys, filter_append, map_append]
    simp [hq]
  members := by
    intro group hmem
    rw [filter_append]
    rcases mem_pushObservation h.nodup hmem with
      ⟨hold, hne⟩ | ⟨old, hold, heq, rfl⟩ | ⟨hnew, rfl⟩
    · rw [h.members group hold]
      simp [Ne.symm hne]
    · simp [h.members old hold, heq, hq]
    · -- no observation of this fingerprint was seen before
      have hnone : seen.filter (fun o => observationQualifies o &&
          o.fingerprint == observation.fingerprint) = [] := by
        rw [filter_eq_nil_iff]
        intro o ho hboth
        rw [Bool.and_eq_true, beq_iff_eq] at hboth
        have hkey := (h.keys observation.fingerprint).mpr
          (mem_map.mpr ⟨o, mem_filter.mpr ⟨ho, hboth.1⟩, hboth.2⟩)
        obtain ⟨old, hold, hfp⟩ := mem_map.mp hkey
        exact hnew old hold hfp
      rw [hnone]
      simp [hq]

theorem grouped_groups (observations : List WorkflowObservation) :
    Grouped observations (groups observations) := by
  induction observations using List.reverseRecOn with
  | nil => exact ⟨by simp [groups], by simp [groups], by simp [groups]⟩
  | append_singleton seen observation ih =>
    unfold groups at ih ⊢
    rw [foldl_append, foldl_cons, foldl_nil]
    split
    · rename_i hq
      exact ih.push hq
    · rename_i hq
      refine ⟨ih.nodup, ?_, ?_⟩
      · intro fingerprint
        rw [ih.keys, filter_append]
        simp [hq]
      · intro group hmem
        rw [ih.members group hmem, filter_append]
        simp [hq]

theorem groups_sorted_perm (observations : List WorkflowObservation) :
    ((groups observations).map Family.sorted).Perm (families observations) := by
  have h := grouped_groups observations
  have hmap : (groups observations).map Family.sorted =
      ((groups observations).map (·.fingerprint)).map (family observations) := by
    rw [map_map]
    refine map_congr_left ?_
    intro group hmem
    rw [Function.comp_apply, Family.sorted, family, h.members group hmem]
  rw [hmap]
  refine List.Perm.map _ ((perm_ext_iff_of_nodup h.nodup (nodup_dedup _)).mpr ?_)
  intro fingerprint
  rw [mem_dedup]
  exact h.keys fingerprint

variable {digests : Digests} {context : EvaluationContext} {existing : List Recommendation}

variable {visited : List Family}

theorem proposals_dedupeKey_nodup (hnodup : (visited.map (·.dedupeKey)).Nodup) :
    ((visited.filterMap (fun family =>
      evaluateFamily digests context family (lineage existing family.dedupeKey))).map
        (·.dedupeKey)).Nodup := by
  induction visited with
  | nil => simp
  | cons f rest ih =>
    rw [map_cons, nodup_cons] at hnodup
    rw [filterMap_cons]
    cases hf : evaluateFamily digests context f (lineage existing f.dedupeKey) with
    | none => exact ih hnodup.2
    | some p =>
      rw [map_cons, nodup_cons]
      refine ⟨?_, ih hnodup.2⟩
      intro hmem
      obtain ⟨q, hq, hkey⟩ := mem_map.mp hmem
      obtain ⟨g, hg, hgq⟩ := mem_filterMap.mp hq
      have hp := (evaluateFamily_eq_some.mp hf).2.2.2.2
      have hqg := (evaluateFamily_eq_some.mp hgq).2.2.2.2
      rw [hp, hqg] at hkey
      exact hnodup.1 (mem_map.mpr ⟨g, hg, hkey⟩)

theorem sorted_proposals_perm {visited' : List Family} (hperm : visited.Perm visited')
    (hnodup : (visited.map (·.dedupeKey)).Nodup) :
    sortBy (fun left right => left.dedupeKey ≤ right.dedupeKey)
      (visited.filterMap (fun family =>
        evaluateFamily digests context family (lineage existing family.dedupeKey))) =
    sortBy (fun left right => left.dedupeKey ≤ right.dedupeKey)
      (visited'.filterMap (fun family =>
        evaluateFamily digests context family (lineage existing family.dedupeKey))) := by
  refine sortBy_congr (hperm.filterMap _) ?_ ?_ ?_
  · intro a b
    simpa using le_total a.dedupeKey b.dedupeKey
  · intro a b c hab hbc
    simp only [decide_eq_true_eq] at hab hbc ⊢
    exact le_trans hab hbc
  · intro a ha b hb hab hba
    simp only [decide_eq_true_eq] at hab hba
    exact inj_on_of_nodup_map (proposals_dedupeKey_nodup hnodup) ha hb (le_antisymm hab hba)

theorem evaluate_dedupeKey_nodup :
    ((evaluateWorkflowImprovements digests context observations existing).map
      (·.dedupeKey)).Nodup := by
  have hsorted : ((evaluateWorkflowImprovements digests context observations existing).map
      (·.dedupeKey)).Perm (((families observations).filterMap (fun family =>
        evaluateFamily digests context family (lineage existing family.dedupeKey))).map
          (·.dedupeKey)) := sortBy_perm.map _
  exact hsorted.nodup_iff.mpr (proposals_dedupeKey_nodup (families_dedupeKey_nodup observations))

/-- **The evaluation does not depend on the order of the observations.** For
observations with distinct sequence numbers, any permutation of them and any
order in which the hash map of their groups is visited give the same
recommendations, and no two of them share a dedupe key. -/
theorem evaluation_order_independent (digests : Digests) (context : EvaluationContext)
    (existing : List Recommendation) (hperm : observations.Perm permuted)
    (hseq : (observations.map (·.sequence)).Nodup) {visited visited' : List Family}
    (hvisited : visited.Perm (groups observations))
    (hvisited' : visited'.Perm (groups permuted)) :
    evaluateGroups digests context visited existing =
      evaluateGroups digests context visited' existing ∧
    evaluateGroups digests context visited existing =
      evaluateWorkflowImprovements digests context observations existing ∧
    ((evaluateGroups digests context visited existing).map (·.dedupeKey)).Nodup := by
  have hnodup := families_dedupeKey_nodup observations
  have hfamilies : (families observations).Perm (visited.map Family.sorted) :=
    ((hvisited.map _).trans (groups_sorted_perm observations)).symm
  have hfamilies' : (families observations).Perm (visited'.map Family.sorted) :=
    (families_perm hperm hseq).trans ((hvisited'.map _).trans (groups_sorted_perm permuted)).symm
  have hvisit : evaluateGroups digests context visited existing =
      evaluateWorkflowImprovements digests context observations existing :=
    (sorted_proposals_perm hfamilies hnodup).symm
  have hvisit' : evaluateGroups digests context visited' existing =
      evaluateWorkflowImprovements digests context observations existing :=
    (sorted_proposals_perm hfamilies' hnodup).symm
  refine ⟨hvisit.trans hvisit'.symm, hvisit, ?_⟩
  rw [hvisit]
  exact evaluate_dedupeKey_nodup

end order

open Sample

/-- Two observations in either order, in a store that dismissed their card. -/
theorem reversed_observations_evaluate_alike :
    evaluateGroups evaluatorDigests at2 (groups laterObservations)
        [dismissedCard] =
      evaluateGroups evaluatorDigests at2
        (groups laterObservations.reverse) [dismissedCard] :=
  (evaluation_order_independent evaluatorDigests at2 [dismissedCard]
    (reverse_perm laterObservations).symm (by decide) (.refl _) (.refl _)).1

/-! ## Families whose newest record has ended -/

/-- The newest record of a dedupe key; of equally new ones, the one listed last. -/
def Latest (existing : List Recommendation) (key : String) (last : Recommendation) : Prop :=
  ∃ earlier later, existing = earlier ++ last :: later ∧ last.dedupeKey = key ∧
    (∀ r ∈ earlier, r.dedupeKey = key → r.updatedAt ≤ last.updatedAt) ∧
    (∀ r ∈ later, r.dedupeKey = key → r.updatedAt < last.updatedAt)

/-- The observation counts towards the family of the dedupe key. -/
def CountsFor (observations : List WorkflowObservation) (key : String)
    (observation : WorkflowObservation) : Prop :=
  observation ∈ observations ∧ observationQualifies observation = true ∧
    (family observations observation.fingerprint).dedupeKey = key

theorem prior_of_latest {existing : List Recommendation} {key : String}
    (h : Latest existing key last) : prior existing key = some last := by
  obtain ⟨earlier, later, rfl, hkey, hearlier, hlater⟩ := h
  unfold prior
  rw [filter_append, filter_cons, if_pos (by simpa using hkey)]
  refine newestOf_last ?_ ?_
  · intro r hr
    rw [mem_filter, beq_iff_eq] at hr
    exact hearlier r hr.1 hr.2
  · intro r hr
    rw [mem_filter, beq_iff_eq] at hr
    exact hlater r hr.1 hr.2

section ended
variable {existing : List Recommendation} {key : String} {last : Recommendation}

theorem terminalEvidence_ended (hprior : prior existing key = some last)
    (hended : finalStatus last.status = true ∨ last.status = .rolledUp)
    (hactive : isActiveMember existing last = false) :
    (lineage existing key).terminalEvidence = some last.evidence := by
  have hmember : activeRollupMember existing (some last) = none := by
    simp [activeRollupMember, Option.filter, hactive]
  have hsome : ∃ q, predecessorOf existing last = some q ∧
      (last.status ≠ .rolledUp → q = last) := by
    unfold predecessorOf
    cases hparent : terminalParent existing last with
    | some parent =>
      refine ⟨parent, rfl, ?_⟩
      intro hne
      simp [terminalParent, hne] at hparent
    | none =>
      refine ⟨last, ?_, fun _ => rfl⟩
      rcases hended with h | h
      · simp [h]
      · simp [h]
  obtain ⟨q, hq, hself⟩ := hsome
  have hpred : terminalPredecessor existing (some last) = some q := by
    rw [terminalPredecessor, hmember, Option.bind_some, hq]
    rfl
  simp only [Lineage.terminalEvidence, lineage, hprior, hpred, Option.map_some, Option.some.injEq]
  by_cases hrolled : last.status = .rolledUp
  · simp [hrolled]
  · simp [hrolled, hself hrolled]

theorem kept_dismissed (hprior : prior existing key = some last)
    (hstatus : last.status = .dismissed) : (lineage existing key).kept = none := by
  have hactive : isActiveMember existing last = false := by
    simp [isActiveMember, hstatus]
  simp [Lineage.kept, lineage, hprior, activeRollupMember, Option.filter, hactive, hstatus]

end ended

variable {item : WorkflowObservationEvidence} {evidence : List WorkflowObservationEvidence}

theorem mem_addObservations {qualifying : List WorkflowObservation}
    (h : item ∈ addObservations evidence qualifying) :
    item ∈ evidence ∨ ∃ o ∈ qualifying, item = evidenceOf o := by
  induction qualifying generalizing evidence with
  | nil => exact .inl h
  | cons o rest ih =>
    rw [addObservations] at h
    split at h
    · rcases ih h with hold | ⟨o', ho', heq⟩
      · exact .inl hold
      · exact .inr ⟨o', mem_cons_of_mem _ ho', heq⟩
    · rcases ih h with hold | ⟨o', ho', heq⟩
      · rcases mem_append.mp hold with hold | hnew
        · exact .inl hold
        · exact .inr ⟨o, mem_cons_self, mem_singleton.mp hnew⟩
      · exact .inr ⟨o', mem_cons_of_mem _ ho', heq⟩

theorem addObservations_ids_nodup (qualifying : List WorkflowObservation)
    (h : (evidence.map (·.observationId)).Nodup) :
    ((addObservations evidence qualifying).map (·.observationId)).Nodup := by
  induction qualifying generalizing evidence with
  | nil => exact h
  | cons o rest ih =>
    rw [addObservations]
    split
    · exact ih h
    · rename_i hno
      refine ih ?_
      rw [map_append, nodup_append]
      refine ⟨h, by simp, ?_⟩
      intro a ha b hb hab
      obtain ⟨item, hitem, rfl⟩ := mem_map.mp ha
      simp only [map_cons, map_nil, mem_singleton] at hb
      refine hno (any_eq_true.mpr ⟨item, hitem, ?_⟩)
      rw [beq_iff_eq, hab, hb]
      rfl

theorem exists_other {items : List WorkflowObservationEvidence}
    (hnodup : (items.map (·.observationId)).Nodup) (hlen : 2 ≤ items.length) (hitem : item ∈ items) :
    ∃ other ∈ items, other.observationId ≠ item.observationId := by
  by_contra hnone
  have hall : ∀ other ∈ items, other.observationId = item.observationId := by
    intro other hother
    by_contra hne
    exact hnone ⟨other, hother, hne⟩
  rcases items with _ | ⟨a, _ | ⟨b, rest⟩⟩
  · simp at hlen
  · simp at hlen
  · have hab : a.observationId = b.observationId :=
      (hall a (by simp)).trans (hall b (by simp)).symm
    simp [hab] at hnodup

/-- What the evaluator proposes after the sample's dismissal. -/
def Sample.reproposed : Recommendation :=
  (family laterObservations "fp").proposal evaluatorDigests at2
    (lineage [dismissedCard] (family laterObservations "fp").dedupeKey)

section resurrection
variable {digests : Digests} {context : EvaluationContext}
  {observations : List WorkflowObservation} {existing : List Recommendation}

variable {f : Family}

theorem countsFor_of_qualifying (hf : f ∈ families observations) {o : WorkflowObservation}
    (ho : o ∈ f.qualifying) : CountsFor observations f.dedupeKey o := by
  have hfam := mem_families hf
  rw [hfam, family, mem_sortBy, mem_filter, Bool.and_eq_true, beq_iff_eq] at ho
  refine ⟨ho.1, ho.2.1, ?_⟩
  rw [ho.2.2, ← hfam]

theorem passed_dismissal (hf : f ∈ families observations)
    (hprior : prior existing f.dedupeKey = some last) (hstatus : last.status = .dismissed)
    (hdue : f.stillDismissed (lineage existing f.dedupeKey) = false) :
    ∃ mark, last.workflowImprovement.dismissalWatermark = some mark ∧
      ((∃ o, CountsFor observations f.dedupeKey o ∧
          mark.highestImpact.rank < o.reportedImpact.rank) ∨
        ∃ o o', CountsFor observations f.dedupeKey o ∧ CountsFor observations f.dedupeKey o' ∧
          o.id ≠ o'.id ∧ mark.dismissedThroughSequence < o.sequence ∧
          mark.dismissedThroughSequence < o'.sequence ∧
          o.sessionId ∉ mark.affectedSessionIds) := by
  have hl : (lineage existing f.dedupeKey).prior = some last := hprior
  have hitems : ∀ item ∈ f.evidence (lineage existing f.dedupeKey),
      ∃ o ∈ f.qualifying, item = evidenceOf o := by
    intro item hitem
    rw [Family.evidence, mem_sortBy, kept_dismissed hprior hstatus] at hitem
    rcases mem_addObservations hitem with hold | hnew
    · cases hold
    · exact hnew
  have hids : ((f.evidence (lineage existing f.dedupeKey)).map (·.observationId)).Nodup := by
    rw [Family.evidence, kept_dismissed hprior hstatus]
    exact (sortBy_perm.map _).nodup_iff.mpr (addObservations_ids_nodup _ nodup_nil)
  simp only [Family.stillDismissed, hl, Option.any_some, hstatus, beq_self_eq_true,
    Bool.true_and] at hdue
  cases hmark : last.workflowImprovement.dismissalWatermark with
  | none => simp [dismissalHolds, hmark] at hdue
  | some mark =>
    refine ⟨mark, rfl, ?_⟩
    simp only [dismissalHolds, hmark, Option.any_some, Bool.and_eq_false_iff,
      Bool.not_eq_false', Bool.and_eq_true, decide_eq_true_eq, any_eq_true] at hdue
    rcases hdue with ⟨item, hitem, hrank⟩ | ⟨hlen, item, hitem, hnew⟩
    · obtain ⟨o, ho, rfl⟩ := hitems item hitem
      exact .inl ⟨o, countsFor_of_qualifying hf ho, hrank⟩
    · -- the later items have distinct ids, so there is a second one
      obtain ⟨other, hother, hne⟩ := exists_other (hids.sublist (filter_sublist.map _)) hlen hitem
      rw [mem_filter, decide_eq_true_eq] at hitem hother
      obtain ⟨o, ho, rfl⟩ := hitems item hitem.1
      obtain ⟨o', ho', rfl⟩ := hitems other hother.1
      refine .inr ⟨o, o', countsFor_of_qualifying hf ho, countsFor_of_qualifying hf ho',
        fun heq => hne heq.symm, hitem.2, hother.2, ?_⟩
      simpa [evidenceOf] using hnew

/-- **A terminal card is not resurrected.** A recommendation for a family whose
newest record has a final status, or a new proposal for one whose newest record
was rolled up, rests on a qualifying observation that record does not cite; and
if the newest record was dismissed, then a qualifying observation has a higher
impact than its watermark, or two came after it and one of them is from a
session it does not list. -/
theorem no_resurrection {r last : Recommendation}
    (hr : r ∈ evaluateWorkflowImprovements digests context observations existing)
    (hlast : Latest existing r.dedupeKey last) :
    (finalStatus last.status = true ∨ (last.status = .rolledUp ∧ r.status = .proposed) →
      ∃ o, CountsFor observations r.dedupeKey o ∧
        ∀ item ∈ last.evidence, item.observationId ≠ o.id) ∧
    (last.status = .dismissed →
      ∃ mark, last.workflowImprovement.dismissalWatermark = some mark ∧
        ((∃ o, CountsFor observations r.dedupeKey o ∧
            mark.highestImpact.rank < o.reportedImpact.rank) ∨
          ∃ o o', CountsFor observations r.dedupeKey o ∧
            CountsFor observations r.dedupeKey o' ∧ o.id ≠ o'.id ∧
            mark.dismissedThroughSequence < o.sequence ∧
            mark.dismissedThroughSequence < o'.sequence ∧
            o.sessionId ∉ mark.affectedSessionIds)) := by
  obtain ⟨f, hf, heval⟩ := mem_evaluate.mp hr
  obtain ⟨-, -, hnew, hdue, rfl⟩ := evaluateFamily_eq_some.mp heval
  rw [proposal_dedupeKey] at hlast ⊢
  have hprior := prior_of_latest hlast
  refine ⟨?_, fun hstatus => passed_dismissal hf hprior hstatus hdue⟩
  intro hended
  have hactive : isActiveMember existing last = false := by
    rcases hended with hfinal | ⟨-, hproposed⟩
    · cases hs : last.status <;> simp [hs, finalStatus, isActiveMember] at hfinal ⊢
    · -- an active member's refresh stays rolled up
      by_contra hmember
      rw [Bool.not_eq_false] at hmember
      simp [Family.proposal, lineage, hprior, activeRollupMember, Option.filter, hmember]
        at hproposed
  have hevidence := terminalEvidence_ended hprior (hended.imp_right And.left) hactive
  rw [Family.nothingNew, hevidence, Option.any_some, Bool.not_eq_false', any_eq_true] at hnew
  obtain ⟨o, ho, hno⟩ := hnew
  refine ⟨o, countsFor_of_qualifying hf ho, ?_⟩
  intro item hitem heq
  rw [Bool.not_eq_true', hasEvidence, any_eq_false] at hno
  exact hno item hitem (beq_iff_eq.mpr heq)

end resurrection

/-- The card proposed after a dismissal rests on two later observations, one of
them from another session. -/
theorem successor_passed_watermark :
    ∃ r ∈ evaluateWorkflowImprovements evaluatorDigests at2
        laterObservations [dismissedCard],
      ∃ o, CountsFor laterObservations r.dedupeKey o ∧
        ∀ item ∈ dismissedCard.evidence, item.observationId ≠ o.id := by
  have hsample : "fp" ∈ ((laterObservations.filter observationQualifies).map
        (·.fingerprint)).dedup ∧
      (family laterObservations "fp").due (lineage [dismissedCard]
        (family laterObservations "fp").dedupeKey) = true ∧
      dismissedCard.dedupeKey = Sample.reproposed.dedupeKey := by
    decide +kernel
  have hmem : Sample.reproposed ∈ evaluateWorkflowImprovements evaluatorDigests at2
      laterObservations [dismissedCard] :=
    mem_evaluate.mpr ⟨family laterObservations "fp",
      mem_map.mpr ⟨"fp", hsample.1, rfl⟩, evaluateFamily_due.mpr ⟨hsample.2.1, rfl⟩⟩
  have hlatest : Latest [dismissedCard] Sample.reproposed.dedupeKey
      dismissedCard :=
    ⟨[], [], rfl, hsample.2.2, by simp, by simp⟩
  exact ⟨Sample.reproposed, hmem, (no_resurrection hmem hlatest).1 (.inl rfl)⟩

end Orkworksd.Taskmaster
