import Orkworksd.Taskmaster.Lineage
import Orkworksd.Taskmaster.Rollup

/- The check of a model's clusters depends on them as a set of sets.

   `validateRollupClusters` walks the clusters once and stops at the first thing it
   refuses, so the error it reports depends on the order. Whether it accepts does
   not: `AcceptedClusters` is what it asks of the snapshots and the clusters, without an
   order, and `validateRollupClusters_ok` shows that the loop accepts exactly then,
   with the clusters normalized and sorted by their members. Members of accepted
   clusters are distinct, so the sort has no ties. -/
namespace Orkworksd.Taskmaster
open Lib List

variable {clusters : List ModelRollupCluster}

/-! ## One cluster -/

/-- What the check asks of a cluster on its own. -/
structure ValidCluster (codec : RollupCodec) (snapshots : List RollupFamilySnapshot)
    (cluster : ModelRollupCluster) : Prop where
  title : validateGeneratedText "title" cluster.title maxRollupTitleChars = .ok ()
  summary : validateGeneratedText "summary" cluster.summary maxRollupSummaryChars = .ok ()
  change : ∃ change, validateProposedChange codec cluster.proposedChange = .ok change
  min : minRollupMembers ≤ cluster.memberRecommendationIds.length
  max : cluster.memberRecommendationIds.length ≤ maxRollupMembers
  nodup : cluster.memberRecommendationIds.Nodup
  supplied : ∀ id ∈ cluster.memberRecommendationIds, ∃ snapshot,
    snapshotById snapshots id = some snapshot ∧ snapshot.targetSurface = cluster.targetSurface

/-- What becomes of a cluster whose change is valid. -/
def normalizeCluster (codec : RollupCodec) (cluster : ModelRollupCluster) : Option RollupCluster :=
  (validateProposedChange codec cluster.proposedChange).toOption.map (fun change =>
    { memberRecommendationIds := sortStrings cluster.memberRecommendationIds
      targetSurface := cluster.targetSurface
      title := cluster.title
      summary := cluster.summary
      proposedChange := change })

variable (texts : List String)

theorem sortStrings_perm : (sortStrings texts).Perm texts := sortBy_perm

theorem sortStrings_congr {texts texts' : List String} (h : texts.Perm texts') :
    sortStrings texts = sortStrings texts' := by
  refine sortBy_congr h ?_ ?_ ?_
  · intro a b
    simpa using le_total a b
  · intro a b c hab hbc
    simp only [decide_eq_true_eq] at hab hbc ⊢
    exact le_trans hab hbc
  · intro a _ b _ hab hba
    simp only [decide_eq_true_eq] at hab hba
    exact le_antisymm hab hba

theorem sortStrings_pairwise : (sortStrings texts).Pairwise (fun a b => a ≤ b) := by
  have h : (sortStrings texts).Pairwise (fun a b => decide (a ≤ b) = true) := by
    refine pairwise_sortBy ?_ ?_
    · intro a b
      simpa using le_total a b
    · intro a b c hab hbc
      simp only [decide_eq_true_eq] at hab hbc ⊢
      exact le_trans hab hbc
  exact h.imp (fun hab => of_decide_eq_true hab)

theorem refuseIf_ok {ε : Type} {condition : Bool} {error : ε} :
    refuseIf condition error = .ok () ↔ condition = false := by
  cases condition <;> simp [refuseIf]

theorem refuseDuplicates_of_nodup {texts : List String} (h : texts.Nodup) :
    refuseDuplicates texts = .ok () := by
  fun_induction refuseDuplicates texts with
  | case1 first second rest heq =>
    rw [beq_iff_eq] at heq
    rw [nodup_cons, heq] at h
    exact absurd mem_cons_self h.1
  | case2 first second rest _ ih => exact ih (nodup_cons.mp h).2
  | case3 => rfl

section members
variable {codec : RollupCodec} {snapshots : List RollupFamilySnapshot}

/-- The loop over the members accepts distinct, supplied members of the surface
that no cluster before had. -/
theorem checkMembers_ok {surface : TargetSurface} {seen ids out : List String} :
    checkMembers snapshots surface seen ids = .ok out ↔
      (∀ id ∈ ids, ∃ snapshot, snapshotById snapshots id = some snapshot ∧
        snapshot.targetSurface = surface) ∧
      ids.Nodup ∧ (∀ id ∈ ids, id ∉ seen) ∧ out = ids.reverse ++ seen := by
  induction ids generalizing seen with
  | nil => simp [checkMembers, eq_comm]
  | cons id rest ih =>
    rw [checkMembers]
    cases hfound : snapshotById snapshots id with
    | none => simp [hfound]
    | some snapshot =>
      by_cases hsurface : snapshot.targetSurface = surface
      · by_cases hseen : id ∈ seen
        · simp [hsurface, hseen]
        · simp only [hsurface, bne_self_eq_false, Bool.false_eq_true, if_false,
            contains_iff_mem, hseen, ih, mem_cons, forall_eq_or_imp, hfound,
            Option.some.injEq, nodup_cons, reverse_cons, append_assoc,
            singleton_append]
          constructor
          · intro h
            obtain ⟨hsup, hnodup, hnot, hout⟩ := h
            refine ⟨⟨⟨snapshot, rfl, hsurface⟩, hsup⟩, ⟨?_, hnodup⟩,
              ⟨not_false, fun x hx hxs => hnot x hx (.inr hxs)⟩, hout⟩
            intro hmem
            exact hnot id hmem (.inl rfl)
          · intro h
            obtain ⟨⟨-, hsup⟩, ⟨hid, hnodup⟩, ⟨-, hnot⟩, hout⟩ := h
            refine ⟨hsup, hnodup, ?_, hout⟩
            intro x hx hor
            rcases hor with rfl | hxs
            · exact hid hx
            · exact hnot x hx hxs
      · simp [hsurface, hfound]

variable {cluster : ModelRollupCluster}

theorem normalizeCluster_ok {change : ProposedChange}
    (h : validateProposedChange codec cluster.proposedChange = .ok change) :
    normalizeCluster codec cluster = some
      { memberRecommendationIds := sortStrings cluster.memberRecommendationIds
        targetSurface := cluster.targetSurface
        title := cluster.title
        summary := cluster.summary
        proposedChange := change } := by
  rw [normalizeCluster, h]
  rfl

variable {seen : SeenClusters}

/-- A cluster is accepted when it is valid on its own and its members and its
member set are new. -/
theorem validateCluster_ok {out : RollupCluster × SeenClusters} :
    validateCluster codec snapshots seen cluster = .ok out ↔
      ValidCluster codec snapshots cluster ∧
      (∀ id ∈ cluster.memberRecommendationIds, id ∉ seen.members) ∧
      sortStrings cluster.memberRecommendationIds ∉ seen.clusters ∧
      normalizeCluster codec cluster = some out.1 ∧
      out.2 = ⟨(sortStrings cluster.memberRecommendationIds).reverse ++ seen.members,
        sortStrings cluster.memberRecommendationIds :: seen.clusters⟩ := by
  have hperm := sortStrings_perm cluster.memberRecommendationIds
  unfold validateCluster
  simp only [bind_eq_ok, Unique.exists_iff, PUnit.default_eq_unit, refuseIf_ok,
    decide_eq_false_iff_not, not_lt, contains_eq_mem, checkMembers_ok]
  constructor
  · intro h
    obtain ⟨htitle, hsummary, change, hchange, -, hmin, hmax, -, hcluster, members,
      ⟨hsupplied, hnodup, hnew, rfl⟩, hout⟩ := h
    have hok : validateProposedChange codec cluster.proposedChange = .ok change := by
      cases hc : validateProposedChange codec cluster.proposedChange with
      | ok value => rw [hc] at hchange; exact congrArg _ (Except.ok.inj hchange)
      | error e => rw [hc] at hchange; cases hchange
    have hout' := Except.ok.inj hout
    rw [← hout']
    refine ⟨⟨htitle, hsummary, ⟨change, hok⟩, hmin, hmax, hperm.nodup_iff.mp hnodup, ?_⟩, ?_,
      hcluster, normalizeCluster_ok hok, rfl⟩
    · intro id hid
      exact hsupplied id (hperm.mem_iff.mpr hid)
    · intro id hid
      exact hnew id (hperm.mem_iff.mpr hid)
  · intro h
    obtain ⟨hvalid, hnew, hcluster, hnormal, hseen⟩ := h
    obtain ⟨change, hok⟩ := hvalid.change
    have hnodup := hperm.nodup_iff.mpr hvalid.nodup
    rw [normalizeCluster_ok hok, Option.some.injEq] at hnormal
    refine ⟨hvalid.title, hvalid.summary, change, by rw [hok]; rfl, ?_, hvalid.min, hvalid.max,
      refuseDuplicates_of_nodup hnodup, hcluster, _,
      ⟨fun id hid => hvalid.supplied id (hperm.mem_iff.mp hid), hnodup,
        fun id hid => hnew id (hperm.mem_iff.mp hid), rfl⟩, ?_⟩
    · have hmin := hvalid.min
      cases hm : cluster.memberRecommendationIds with
      | nil => rw [hm] at hmin; simp [minRollupMembers] at hmin
      | cons id rest => rfl
    · exact congrArg _ (Prod.ext hnormal hseen.symm)

/-! ## The loop over the clusters -/

/-- The member sets seen are not empty and their members are seen too. -/
def SeenClusters.Consistent (seen : SeenClusters) : Prop :=
  ∀ ids ∈ seen.clusters, ids ≠ [] ∧ ∀ id ∈ ids, id ∈ seen.members

def ValidClusters (codec : RollupCodec) (snapshots : List RollupFamilySnapshot)
    (clusters : List ModelRollupCluster) : Prop :=
  (∀ cluster ∈ clusters, ValidCluster codec snapshots cluster) ∧
    (clusters.flatMap (·.memberRecommendationIds)).Nodup

theorem ValidCluster.members_ne_nil (h : ValidCluster codec snapshots cluster) :
    cluster.memberRecommendationIds ≠ [] := by
  intro hnil
  have hmin := h.min
  rw [hnil] at hmin
  simp [minRollupMembers] at hmin

theorem validateEachCluster_ok {out : List RollupCluster}
    (hseen : seen.Consistent) : validateEachCluster codec snapshots seen clusters = .ok out ↔
      ValidClusters codec snapshots clusters ∧
      (∀ id ∈ clusters.flatMap (·.memberRecommendationIds), id ∉ seen.members) ∧
      out = clusters.filterMap (normalizeCluster codec) := by
  induction clusters generalizing seen out with
  | nil => simp [validateEachCluster, ValidClusters, eq_comm]
  | cons cluster rest ih =>
    have hperm := sortStrings_perm cluster.memberRecommendationIds
    -- the members of this cluster are seen from now on
    have hnext : cluster.memberRecommendationIds ≠ [] →
        (⟨(sortStrings cluster.memberRecommendationIds).reverse ++ seen.members,
          sortStrings cluster.memberRecommendationIds :: seen.clusters⟩ :
          SeenClusters).Consistent := by
      intro hne ids hids
      rcases mem_cons.mp hids with rfl | hids
      · refine ⟨?_, fun id hid => by simp [hid]⟩
        intro hnil
        rw [hnil] at hperm
        exact hne hperm.symm.eq_nil
      · obtain ⟨hids, hmem⟩ := hseen ids hids
        exact ⟨hids, fun id hid => mem_append_right _ (hmem id hid)⟩
    simp only [validateEachCluster, bind_eq_ok, validateCluster_ok]
    constructor
    · intro h
      obtain ⟨accepted, ⟨hvalid, hnew, -, hnormal, hafter⟩, others, hothers, hout⟩ := h
      rw [hafter, ih (hnext hvalid.members_ne_nil)] at hothers
      obtain ⟨⟨hall, hnodup⟩, hfresh, rfl⟩ := hothers
      refine ⟨⟨?_, ?_⟩, ?_, ?_⟩
      · intro c hc
        rcases mem_cons.mp hc with rfl | hc
        · exact hvalid
        · exact hall c hc
      · rw [flatMap_cons, nodup_append]
        refine ⟨hvalid.nodup, hnodup, ?_⟩
        intro a ha b hb hab
        refine hfresh b hb ?_
        rw [← hab]
        exact mem_append_left _ (mem_reverse.mpr (hperm.mem_iff.mpr ha))
      · intro id hid
        rw [flatMap_cons, mem_append] at hid
        rcases hid with hid | hid
        · exact hnew id hid
        · exact fun hmem => hfresh id hid (mem_append_right _ hmem)
      · rw [filterMap_cons_some hnormal]
        exact (Except.ok.inj hout).symm
    · intro h
      obtain ⟨⟨hall, hnodup⟩, hfresh, rfl⟩ := h
      have hvalid := hall cluster mem_cons_self
      obtain ⟨change, hok⟩ := hvalid.change
      rw [flatMap_cons, nodup_append] at hnodup
      rw [flatMap_cons] at hfresh
      have hnormal := normalizeCluster_ok hok
      refine ⟨(_, _), ⟨hvalid, fun id hid => hfresh id (mem_append_left _ hid), ?_, hnormal,
        rfl⟩, rest.filterMap (normalizeCluster codec), ?_, ?_⟩
      · -- an equal member set would have its members seen
        intro hmem
        obtain ⟨hne, hids⟩ := hseen _ hmem
        obtain ⟨id, hid⟩ := exists_mem_of_ne_nil _ hne
        exact hfresh id (mem_append_left _ (hperm.mem_iff.mp hid)) (hids id hid)
      · rw [ih (hnext hvalid.members_ne_nil)]
        refine ⟨⟨fun c hc => hall c (mem_cons_of_mem _ hc), hnodup.2.1⟩, ?_, rfl⟩
        intro id hid hmem
        rcases mem_append.mp hmem with hmem | hmem
        · exact hnodup.2.2 id (hperm.mem_iff.mp (mem_reverse.mp hmem)) id hid rfl
        · exact hfresh id (mem_append_right _ hid) hmem
      · rw [filterMap_cons_some hnormal]
        rfl

end members

/-! ## What is accepted, without an order -/

structure AcceptedClusters (codec : RollupCodec) (snapshots : List RollupFamilySnapshot)
    (clusters : List ModelRollupCluster) : Prop where
  families : snapshots.length ≤ maxRollupFamilies
  observations : (snapshots.map (·.representativeEvidence.length)).sum ≤ maxRollupObservations
  input : snapshotsSize codec snapshots ≤ maxRollupInputBytes
  count : clusters.length ≤ maxRollupClusters
  response : clustersSize codec clusters ≤ maxRollupResponseBytes
  valid : ValidClusters codec snapshots clusters

/-- The accepted clusters, sorted by their members. -/
def normalizedClusters (codec : RollupCodec) (clusters : List ModelRollupCluster) :
    List RollupCluster :=
  sortBy (fun left right => decide (left.memberRecommendationIds ≤ right.memberRecommendationIds))
    (clusters.filterMap (normalizeCluster codec))

section accepted
variable {codec : RollupCodec} {snapshots snapshots' : List RollupFamilySnapshot}
  {clusters clusters' : List ModelRollupCluster} {out : List RollupCluster}

theorem validateRollupClusters_ok :
    validateRollupClusters codec snapshots clusters = .ok out ↔
      AcceptedClusters codec snapshots clusters ∧ out = normalizedClusters codec clusters := by
  have hempty : (⟨[], []⟩ : SeenClusters).Consistent := by
    intro ids hids
    cases hids
  unfold validateRollupClusters
  simp only [bind_eq_ok, Unique.exists_iff, PUnit.default_eq_unit, refuseIf_ok,
    decide_eq_false_iff_not, not_lt, validateEachCluster_ok hempty]
  constructor
  · intro h
    obtain ⟨hfamilies, hobservations, hinput, hcount, hresponse, normalized,
      ⟨hvalid, -, rfl⟩, hout⟩ := h
    exact ⟨⟨hfamilies, hobservations, hinput, hcount, hresponse, hvalid⟩, (Except.ok.inj hout).symm⟩
  · intro h
    obtain ⟨haccepted, rfl⟩ := h
    exact ⟨haccepted.families, haccepted.observations, haccepted.input, haccepted.count,
      haccepted.response, _, ⟨haccepted.valid, fun _ _ => not_mem_nil, rfl⟩, rfl⟩

theorem arraySize_perm {items items' : List Nat} (h : items.Perm items') :
    arraySize items = arraySize items' := by
  unfold arraySize
  rw [h.sum_nat, h.length_eq]

/-! ## Rearranged clusters -/

/-- The same cluster with its members in another order. -/
def SameCluster (cluster cluster' : ModelRollupCluster) : Prop :=
  cluster.memberRecommendationIds.Perm cluster'.memberRecommendationIds ∧
    cluster' = { cluster with memberRecommendationIds := cluster'.memberRecommendationIds }

/-- The same clusters in another order, each with its members in another order. -/
def Rearranged (clusters clusters' : List ModelRollupCluster) : Prop :=
  ∃ middle, List.Forall₂ SameCluster clusters middle ∧ middle.Perm clusters'

variable {cluster' cluster : ModelRollupCluster}

theorem SameCluster.normalize (h : SameCluster cluster cluster') :
    normalizeCluster codec cluster = normalizeCluster codec cluster' := by
  obtain ⟨hperm, hsame⟩ := h
  rw [hsame]
  simp only [normalizeCluster, sortStrings_congr hperm]

theorem SameCluster.size (h : SameCluster cluster cluster') :
    clusterSize codec cluster = clusterSize codec cluster' := by
  obtain ⟨hperm, hsame⟩ := h
  rw [hsame]
  simp only [clusterSize, arraySize_perm (hperm.map codec.text)]

theorem SameCluster.valid (h : SameCluster cluster cluster')
    (hvalid : ValidCluster codec snapshots cluster) : ValidCluster codec snapshots cluster' := by
  obtain ⟨hperm, hsame⟩ := h
  rw [hsame]
  exact ⟨hvalid.title, hvalid.summary, hvalid.change, hperm.length_eq ▸ hvalid.min,
    hperm.length_eq ▸ hvalid.max, hperm.nodup_iff.mp hvalid.nodup,
    fun id hid => hvalid.supplied id (hperm.mem_iff.mpr hid)⟩

theorem SameCluster.symm (h : SameCluster cluster cluster') : SameCluster cluster' cluster := by
  obtain ⟨hperm, hsame⟩ := h
  refine ⟨hperm.symm, ?_⟩
  rw [hsame]

theorem Rearranged.symm (h : Rearranged clusters clusters') : Rearranged clusters' clusters := by
  obtain ⟨middle, hsame, hperm⟩ := h
  have hback : List.Forall₂ SameCluster middle clusters :=
    List.Forall₂.flip (hsame.imp (fun _ _ hc => hc.symm))
  -- the permutation is carried over the pairing
  obtain ⟨other, hother, hpair⟩ := perm_comp_forall₂ hperm.symm hback
  exact ⟨other, hother, hpair⟩

section
variable (h : List.Forall₂ SameCluster clusters clusters')
include h

theorem forall₂_members :
    (clusters.flatMap (·.memberRecommendationIds)).Perm
      (clusters'.flatMap (·.memberRecommendationIds)) := by
  induction h with
  | nil => exact .nil
  | cons hsame _ ih =>
    rw [flatMap_cons, flatMap_cons]
    exact hsame.1.append ih

theorem forall₂_valid
    (hvalid : ∀ cluster ∈ clusters, ValidCluster codec snapshots cluster) :
    ∀ cluster ∈ clusters', ValidCluster codec snapshots cluster := by
  induction h with
  | nil => exact fun cluster hc => absurd hc not_mem_nil
  | cons hsame _ ih =>
    intro cluster hc
    rcases mem_cons.mp hc with rfl | hc
    · exact hsame.valid (hvalid _ mem_cons_self)
    · exact ih (fun c hmem => hvalid c (mem_cons_of_mem _ hmem)) cluster hc

theorem forall₂_filterMap :
    clusters.filterMap (normalizeCluster codec) = clusters'.filterMap (normalizeCluster codec) := by
  induction h with
  | nil => rfl
  | cons hsame _ ih => rw [filterMap_cons, filterMap_cons, hsame.normalize, ih]

theorem forall₂_sizes :
    clusters.map (clusterSize codec) = clusters'.map (clusterSize codec) := by
  induction h with
  | nil => rfl
  | cons hsame _ ih => rw [map_cons, map_cons, hsame.size, ih]

end

theorem Rearranged.accepted (h : Rearranged clusters clusters')
    (haccepted : AcceptedClusters codec snapshots clusters) : AcceptedClusters codec snapshots clusters' := by
  obtain ⟨middle, hsame, hperm⟩ := h
  refine ⟨haccepted.families, haccepted.observations, haccepted.input, ?_, ?_, ?_, ?_⟩
  · rw [← hperm.length_eq, ← hsame.length_eq]
    exact haccepted.count
  · have hsize : clustersSize codec clusters = clustersSize codec clusters' := by
      unfold clustersSize
      rw [forall₂_sizes hsame]
      exact arraySize_perm (hperm.map _)
    rw [← hsize]
    exact haccepted.response
  · intro cluster hc
    exact forall₂_valid hsame haccepted.valid.1 cluster (hperm.mem_iff.mpr hc)
  · exact ((forall₂_members hsame).trans (hperm.flatMap_right _)).nodup_iff.mp haccepted.valid.2

/-! ## The sorted output -/

theorem mem_normalized {cluster : RollupCluster}
    (h : cluster ∈ clusters.filterMap (normalizeCluster codec)) :
    ∃ model ∈ clusters,
      cluster.memberRecommendationIds = sortStrings model.memberRecommendationIds ∧
      cluster.targetSurface = model.targetSurface := by
  obtain ⟨model, hmodel, hnormal⟩ := mem_filterMap.mp h
  obtain ⟨change, -, rfl⟩ := Option.map_eq_some_iff.mp hnormal
  exact ⟨model, hmodel, rfl, rfl⟩

theorem normalized_disjoint (hvalid : ValidClusters codec snapshots clusters) :
    (clusters.filterMap (normalizeCluster codec)).Pairwise (fun a b =>
      a.memberRecommendationIds.Disjoint b.memberRecommendationIds) := by
  have hpair : clusters.Pairwise (fun a b =>
      a.memberRecommendationIds.Disjoint b.memberRecommendationIds) :=
    (nodup_flatMap.mp hvalid.2).2
  refine List.Pairwise.filterMap _ ?_ hpair
  intro a b hab a' ha b' hb
  obtain ⟨_, -, rfl⟩ := Option.map_eq_some_iff.mp ha
  obtain ⟨_, -, rfl⟩ := Option.map_eq_some_iff.mp hb
  intro id hid hid'
  exact hab ((sortStrings_perm _).mem_iff.mp hid) ((sortStrings_perm _).mem_iff.mp hid')

theorem normalizedClusters_perm (h : Rearranged clusters clusters')
    (hvalid : ValidClusters codec snapshots clusters) :
    normalizedClusters codec clusters = normalizedClusters codec clusters' := by
  obtain ⟨middle, hsame, hperm⟩ := h
  unfold normalizedClusters
  have hlists : (clusters.filterMap (normalizeCluster codec)).Perm
      (clusters'.filterMap (normalizeCluster codec)) := by
    rw [forall₂_filterMap hsame]
    exact hperm.filterMap _
  refine sortBy_congr hlists ?_ ?_ ?_
  · intro a b
    simpa using le_total a.memberRecommendationIds b.memberRecommendationIds
  · intro a b c hab hbc
    simp only [decide_eq_true_eq] at hab hbc ⊢
    exact le_trans hab hbc
  · intro a ha b hb hab hba
    simp only [decide_eq_true_eq] at hab hba
    have hmembers := le_antisymm hab hba
    -- two clusters with the same members would share one
    by_contra hne
    obtain ⟨model, hmodel, hsorted, -⟩ := mem_normalized ha
    have hsome : a.memberRecommendationIds ≠ [] := by
      rw [hsorted]
      intro hnil
      have hperm := sortStrings_perm model.memberRecommendationIds
      rw [hnil] at hperm
      exact (hvalid.1 model hmodel).members_ne_nil hperm.symm.eq_nil
    obtain ⟨id, hid⟩ := exists_mem_of_ne_nil _ hsome
    have hsymm : Std.Symm (fun a b : RollupCluster =>
        a.memberRecommendationIds.Disjoint b.memberRecommendationIds) := ⟨fun _ _ hd => hd.symm⟩
    exact (normalized_disjoint hvalid).forall ha hb hne hid (hmembers ▸ hid)

/-! ## Rearranged snapshots -/

variable {snapshot : RollupFamilySnapshot}

theorem snapshotById_mem {id : String} (h : snapshotById snapshots id = some snapshot) :
    snapshot ∈ snapshots ∧ snapshot.recommendationId = id := by
  have hmem := mem_of_find?_eq_some h
  have hid := List.find?_some h
  exact ⟨mem_reverse.mp hmem, beq_iff_eq.mp hid⟩

theorem snapshotById_of_mem (hids : (snapshots.map (·.recommendationId)).Nodup)
    (h : snapshot ∈ snapshots) :
    snapshotById snapshots snapshot.recommendationId = some snapshot := by
  cases hfound : snapshotById snapshots snapshot.recommendationId with
  | none =>
    rw [snapshotById, List.find?_eq_none] at hfound
    exact absurd (beq_iff_eq.mpr rfl) (hfound snapshot (mem_reverse.mpr h))
  | some other =>
    obtain ⟨hmem, hid⟩ := snapshotById_mem hfound
    rw [inj_on_of_nodup_map hids hmem h hid]

theorem snapshotById_perm (hperm : snapshots.Perm snapshots')
    (hids : (snapshots.map (·.recommendationId)).Nodup) :
    snapshotById snapshots = snapshotById snapshots' := by
  have hids' := (hperm.map (·.recommendationId)).nodup_iff.mp hids
  funext id
  cases hfound : snapshotById snapshots id with
  | some snapshot =>
    obtain ⟨hmem, rfl⟩ := snapshotById_mem hfound
    exact (snapshotById_of_mem hids' (hperm.mem_iff.mp hmem)).symm
  | none =>
    cases hother : snapshotById snapshots' id with
    | none => rfl
    | some snapshot =>
      obtain ⟨hmem, rfl⟩ := snapshotById_mem hother
      rw [snapshotById_of_mem hids (hperm.mem_iff.mpr hmem)] at hfound
      cases hfound

theorem AcceptedClusters.snapshots_perm (hperm : snapshots.Perm snapshots')
    (hids : (snapshots.map (·.recommendationId)).Nodup)
    (haccepted : AcceptedClusters codec snapshots clusters) : AcceptedClusters codec snapshots' clusters := by
  refine ⟨?_, ?_, ?_, haccepted.count, haccepted.response, ?_, haccepted.valid.2⟩
  · rw [← hperm.length_eq]
    exact haccepted.families
  · rw [← (hperm.map _).sum_nat]
    exact haccepted.observations
  · have hsize : snapshotsSize codec snapshots = snapshotsSize codec snapshots' :=
      arraySize_perm (hperm.map _)
    rw [← hsize]
    exact haccepted.input
  · intro cluster hc
    have h := haccepted.valid.1 cluster hc
    refine ⟨h.title, h.summary, h.change, h.min, h.max, h.nodup, ?_⟩
    rw [← snapshotById_perm hperm hids]
    exact h.supplied

end accepted

/-! ## Main result -/

/-- What the output promises: disjoint clusters of sorted, distinct and supplied
members of one surface, between the minimum and the maximum of them. -/
structure SoundClusters (snapshots : List RollupFamilySnapshot) (out : List RollupCluster) :
    Prop where
  disjoint : out.Pairwise (fun a b =>
    a.memberRecommendationIds.Disjoint b.memberRecommendationIds)
  sorted : ∀ cluster ∈ out, cluster.memberRecommendationIds.Pairwise (fun a b => a < b)
  min : ∀ cluster ∈ out, minRollupMembers ≤ cluster.memberRecommendationIds.length
  max : ∀ cluster ∈ out, cluster.memberRecommendationIds.length ≤ maxRollupMembers
  supplied : ∀ cluster ∈ out, ∀ id ∈ cluster.memberRecommendationIds, ∃ snapshot ∈ snapshots,
    snapshot.recommendationId = id ∧ snapshot.targetSurface = cluster.targetSurface

theorem AcceptedClusters.sound {codec : RollupCodec} {snapshots : List RollupFamilySnapshot}
    (h : AcceptedClusters codec snapshots clusters) :
    SoundClusters snapshots (normalizedClusters codec clusters) := by
  have hmodel : ∀ cluster ∈ normalizedClusters codec clusters, ∃ model ∈ clusters,
      cluster.memberRecommendationIds = sortStrings model.memberRecommendationIds ∧
      cluster.targetSurface = model.targetSurface :=
    fun cluster hc => mem_normalized (mem_sortBy.mp hc)
  refine ⟨?_, ?_, ?_, ?_, ?_⟩
  · exact (sortBy_perm.pairwise_iff (fun hab => hab.symm)).mpr (normalized_disjoint h.valid)
  · intro cluster hc
    obtain ⟨model, hm, hsorted, -⟩ := hmodel cluster hc
    rw [hsorted]
    have hnodup := (sortStrings_perm model.memberRecommendationIds).nodup_iff.mpr
      (h.valid.1 model hm).nodup
    exact ((sortStrings_pairwise _).and hnodup).imp (fun hab => lt_of_le_of_ne hab.1 hab.2)
  · intro cluster hc
    obtain ⟨model, hm, hsorted, -⟩ := hmodel cluster hc
    rw [hsorted, (sortStrings_perm _).length_eq]
    exact (h.valid.1 model hm).min
  · intro cluster hc
    obtain ⟨model, hm, hsorted, -⟩ := hmodel cluster hc
    rw [hsorted, (sortStrings_perm _).length_eq]
    exact (h.valid.1 model hm).max
  · intro cluster hc id hid
    obtain ⟨model, hm, hsorted, hsurface⟩ := hmodel cluster hc
    rw [hsorted, (sortStrings_perm _).mem_iff] at hid
    obtain ⟨snapshot, hfound, hsame⟩ := (h.valid.1 model hm).supplied id hid
    obtain ⟨hmem, hid'⟩ := snapshotById_mem hfound
    exact ⟨snapshot, hmem, hid', hsame.trans hsurface.symm⟩

/-- **Rollup validation is order-insensitive and sound.** Rearranging the
clusters and the members inside them, and permuting a set of snapshots (one for
each recommendation), changes neither whether the clusters are accepted nor what
is returned; and what is returned is sound. -/
theorem rollup_validation_order_independent (codec : RollupCodec)
    {snapshots snapshots' : List RollupFamilySnapshot}
    {clusters clusters' : List ModelRollupCluster} (hclusters : Rearranged clusters clusters') (hsnapshots : snapshots.Perm snapshots') :
    (∀ out, validateRollupClusters codec snapshots clusters' = .ok out ↔
      validateRollupClusters codec snapshots clusters = .ok out) ∧
    ((snapshots.map (·.recommendationId)).Nodup →
      ∀ out, validateRollupClusters codec snapshots' clusters' = .ok out ↔
        validateRollupClusters codec snapshots clusters = .ok out) ∧
    (∀ out, validateRollupClusters codec snapshots clusters = .ok out →
      SoundClusters snapshots out) := by
  have hrearranged : ∀ out, validateRollupClusters codec snapshots clusters' = .ok out ↔
      validateRollupClusters codec snapshots clusters = .ok out := by
    intro out
    rw [validateRollupClusters_ok, validateRollupClusters_ok]
    constructor
    · intro h
      obtain ⟨haccepted, rfl⟩ := h
      exact ⟨hclusters.symm.accepted haccepted,
        normalizedClusters_perm hclusters.symm haccepted.valid⟩
    · intro h
      obtain ⟨haccepted, rfl⟩ := h
      exact ⟨hclusters.accepted haccepted, normalizedClusters_perm hclusters haccepted.valid⟩
  refine ⟨hrearranged, ?_, ?_⟩
  · intro hids out
    rw [← hrearranged out, validateRollupClusters_ok, validateRollupClusters_ok]
    have hids' := (hsnapshots.map (·.recommendationId)).nodup_iff.mp hids
    exact and_congr_left (fun _ => ⟨AcceptedClusters.snapshots_perm hsnapshots.symm hids',
      AcceptedClusters.snapshots_perm hsnapshots hids⟩)
  · intro out h
    obtain ⟨haccepted, rfl⟩ := validateRollupClusters_ok.mp h
    exact haccepted.sound

namespace Sample

/-- The lengths of the samples' JSON texts. -/
def rollupCodec : RollupCodec where
  snapshot := fun _ => List.replicate 357 0
  text := fun text => text.length + 2
  modelChange := fun _ => 149
  change := fun _ => 167
  lowercase := fun text => String.ofList (asciiLowercase text)

def familyOf (id : String) : RollupFamilySnapshot where
  recommendationId := id
  dedupeKey := "improve_workflow:v1:tooling:" ++ id
  targetSurface := .tooling
  problemArea := none
  title := "Improve tooling"
  summary := "Build by hand"
  representativeEvidence := []
  sourceSessionIds := ["s"]
  activeParentId := none
  activeParentMemberIds := []
  evidenceSnapshotHash := "0000000000000000000000000000000000000000000000000000000000000000"

def buildCluster (memberIds : List String) : ModelRollupCluster where
  memberRecommendationIds := memberIds
  targetSurface := .tooling
  title := "Automate the build"
  summary := "Run the build from one command"
  proposedChange :=
    { summary := "Document the build step"
      targets := [⟨"docs/build.md", .edit, "Describe the step"⟩]
      verification := "Read it" }

end Sample

open Sample

theorem Sample.buildCluster_accepted :
    validateRollupClusters rollupCodec [familyOf "a", familyOf "b"]
      [buildCluster ["a", "b"]] =
        .ok [⟨["a", "b"], .tooling, "Automate the build", "Run the build from one command",
          ⟨"Document the build step", [⟨"docs/build.md", .edit, "Describe the step", false⟩],
            "Read it"⟩⟩] := by
  have hvalid : ValidCluster rollupCodec [familyOf "a", familyOf "b"]
      (buildCluster ["a", "b"]) :=
    ⟨by decide, by decide, ⟨_, rfl⟩, by decide, by decide, by decide, by decide⟩
  have hinput : snapshotsSize rollupCodec [familyOf "a", familyOf "b"] ≤
      maxRollupInputBytes := by
    have hsize : ∀ s, (rollupCodec.snapshot s).length = 357 :=
      fun _ => length_replicate
    simp only [snapshotsSize, map_cons, map_nil, hsize]
    decide
  refine validateRollupClusters_ok.mpr ⟨⟨by decide, by decide, hinput, by decide, by decide,
    ⟨?_, by decide⟩⟩, by decide⟩
  intro cluster hc
  rw [mem_singleton.mp hc]
  exact hvalid

/-- Two families clustered in either order give one cluster with sorted members. -/
theorem reversed_cluster_accepted :
    validateRollupClusters rollupCodec [familyOf "b", familyOf "a"]
      [buildCluster ["b", "a"]] =
        .ok [⟨["a", "b"], .tooling, "Automate the build", "Run the build from one command",
          ⟨"Document the build step", [⟨"docs/build.md", .edit, "Describe the step", false⟩],
            "Read it"⟩⟩] := by
  have hclusters : Rearranged [buildCluster ["a", "b"]] [buildCluster ["b", "a"]] :=
    ⟨[buildCluster ["b", "a"]], .cons ⟨.swap "b" "a" [], rfl⟩ .nil, .refl _⟩
  have hsnapshots : [familyOf "a", familyOf "b"].Perm [familyOf "b", familyOf "a"] := .swap _ _ []
  exact ((rollup_validation_order_independent rollupCodec hclusters hsnapshots).2.1
    (by decide) _).mpr buildCluster_accepted

end Orkworksd.Taskmaster
