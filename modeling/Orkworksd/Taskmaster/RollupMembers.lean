import Orkworksd.Taskmaster.RefreshRepeat
import Orkworksd.Taskmaster.RollupApply

/- Where the members of a rollup end up.

   The graph the call works out is the old one with some records written over it.
   A record is written for one of four reasons (`Written`): it is the parent of a
   cluster, a member of a cluster, a parent that is superseded, or a member that is
   released. The ids of these four kinds hardly meet: a supplied member is never a
   parent, because a parent must list members and be active, and a supplied member
   lists none or is rolled up (`not_retained`, `not_oldParent`). So the order of
   the writes does not matter, and what a supplied member becomes is read off the
   one kind of write it can get. A member that would be left behind by a parent that
   goes on with other members is found by the validation of the new graph. -/
namespace Orkworksd.Taskmaster
open Lib List TextMap

variable {records legacyUpdates : List Recommendation}

variable {members stored : List Recommendation} {oldParent : Recommendation}

/-! ## The records a loop writes -/

/-- The records put over a map in order. -/
def written (map : TextMap Recommendation) (records : List Recommendation) :
    TextMap Recommendation :=
  records.foldl (fun map record => map.insert record.id record) map

variable (map : TextMap Recommendation)

theorem written_append (first second : List Recommendation) :
    written map (first ++ second) = written (written map first) second := foldl_append

variable {id : String}

theorem written_get_of_mem (h : id ∈ records.map (·.id)) :
    ∃ r ∈ records, r.id = id ∧ (written map records)[id]? = some r := by
  induction records generalizing map with
  | nil => cases h
  | cons first rest ih =>
    by_cases hrest : id ∈ rest.map (·.id)
    · obtain ⟨r, hr, hid, hget⟩ := ih (map.insert first.id first) hrest
      exact ⟨r, mem_cons_of_mem _ hr, hid, hget⟩
    · have hid : first.id = id := by
        rcases mem_cons.mp h with heq | hmem
        · exact heq.symm
        · exact absurd hmem hrest
      refine ⟨first, mem_cons_self, hid, ?_⟩
      have hrest' := get_foldl_of_notMem (f := fun r : Recommendation => r.id)
        (m := map.insert first.id first) hrest
      exact hrest'.trans (by rw [hid, get_insert_self])

theorem written_get_of_notMem {map : TextMap Recommendation}
    (h : id ∉ records.map (·.id)) : (written map records)[id]? = map[id]? :=
  get_foldl_of_notMem (f := fun r : Recommendation => r.id) h

/-- One turn of a loop: it writes the records and expects their files. -/
structure Wrote (before : RollupGraph) (records : List Recommendation) (after : RollupGraph) :
    Prop where
  working : after.working = written before.working records
  kept : ∀ id ∈ before.expected.keys, id ∈ after.expected.keys
  expected : ∀ r ∈ records, r.id ∈ after.expected.keys

theorem Wrote.trans {first second third : RollupGraph} {others : List Recommendation}
    (h : Wrote first records second) (h' : Wrote second others third) :
    Wrote first (records ++ others) third where
  working := by rw [h'.working, h.working, written_append]
  kept := fun id hid => h'.kept id (h.kept id hid)
  expected := by
    intro r hr
    rcases mem_append.mp hr with hr | hr
    · exact h'.kept _ (h.expected r hr)
    · exact h'.expected r hr

section loops
variable {currentHashes : TextMap String} {graph graph' : RollupGraph}

variable {id : String}

theorem mem_keys_expect {other : String} : id ∈ (graph.expect currentHashes other).expected.keys ↔
      id = other ∨ id ∈ graph.expected.keys := by
  unfold RollupGraph.expect
  split
  · rename_i hin
    have hother : other ∈ graph.expected.keys := by
      rw [Std.ExtTreeMap.mem_keys]
      simpa using hin
    constructor
    · exact .inr
    · intro h
      rcases h with rfl | h
      · exact hother
      · exact h
  · simp only [TextMap.mem_keys, get_insert]
    by_cases heq : other = id
    · simp [heq]
    · simp [heq, Ne.symm heq]

theorem working_expect : (graph.expect currentHashes id).working = graph.working := by
  unfold RollupGraph.expect
  split <;> rfl

theorem wrote_expect (currentHashes : TextMap String) (graph : RollupGraph) (ids : List String) :
    Wrote graph [] (ids.foldl (RollupGraph.expect currentHashes) graph) ∧
      ∀ id ∈ ids, id ∈ (ids.foldl (RollupGraph.expect currentHashes) graph).expected.keys := by
  induction ids generalizing graph with
  | nil => exact ⟨⟨rfl, fun _ h => h, by simp⟩, by simp⟩
  | cons first rest ih =>
    obtain ⟨hrest, hids⟩ := ih (graph.expect currentHashes first)
    have hfirst : Wrote graph [] (graph.expect currentHashes first) :=
      ⟨working_expect, fun _ h => mem_keys_expect.mpr (.inr h), by simp⟩
    refine ⟨hfirst.trans hrest, ?_⟩
    intro id hid
    rcases mem_cons.mp hid with rfl | hid
    · exact hrest.kept _ (mem_keys_expect.mpr (.inl rfl))
    · exact hids id hid

theorem wrote_store (records : List Recommendation) :
    Wrote graph records (records.foldl (RollupGraph.store currentHashes) graph) := by
  induction records generalizing graph with
  | nil => exact ⟨rfl, fun _ h => h, by simp⟩
  | cons first rest ih =>
    have hfirst : Wrote graph [first] (graph.store currentHashes first) := by
      refine ⟨congrArg (·.insert first.id first) working_expect, ?_, ?_⟩
      · intro id hid
        exact mem_keys_expect.mpr (.inr hid)
      · intro r hr
        rw [mem_singleton.mp hr]
        exact mem_keys_expect.mpr (.inl rfl)
    exact hfirst.trans ih

theorem wrote_loop {α : Type} {turn : RollupGraph → α → Option RollupGraph}
    {records : α → Option (List Recommendation)}
    (hturn : ∀ g a g', turn g a = some g' → ∃ rs, records a = some rs ∧ Wrote g rs g')
    {items : List α} (h : items.foldlM turn graph = some graph') :
    ∃ all, Wrote graph all graph' ∧ (∀ a ∈ items, ∃ rs, records a = some rs ∧ ∀ r ∈ rs, r ∈ all) ∧
      ∀ r ∈ all, ∃ a ∈ items, ∃ rs, records a = some rs ∧ r ∈ rs := by
  induction items generalizing graph with
  | nil =>
    cases h
    exact ⟨[], ⟨rfl, fun _ h => h, by simp⟩, by simp, by simp⟩
  | cons first rest ih =>
    rw [foldlM_cons] at h
    obtain ⟨middle, hfirst, hrest⟩ := Option.bind_eq_some_iff.mp h
    obtain ⟨rs, hrs, hwrote⟩ := hturn _ _ _ hfirst
    obtain ⟨all, hall, hitems, hfrom⟩ := ih hrest
    refine ⟨rs ++ all, hwrote.trans hall, ?_, ?_⟩
    · intro a ha
      rcases mem_cons.mp ha with rfl | ha
      · exact ⟨rs, hrs, fun r hr => mem_append_left _ hr⟩
      · obtain ⟨rs', hrs', hmem⟩ := hitems a ha
        exact ⟨rs', hrs', fun r hr => mem_append_right _ (hmem r hr)⟩
    · intro r hr
      rcases mem_append.mp hr with hr | hr
      · exact ⟨first, mem_cons_self, rs, hrs, hr⟩
      · obtain ⟨a, ha, rs', hrs', hmem⟩ := hfrom r hr
        exact ⟨a, mem_cons_of_mem _ ha, rs', hrs', hmem⟩

end loops

/-! ## One turn -/

/-- What the turn of a cluster found and writes. -/
structure ClusterTurn (digests : Digests) (inputs : RollupInputs) (cluster : RollupCluster)
    (parent : Recommendation) (members : List Recommendation) : Prop where
  id : parent.id = stableRollupId digests cluster.memberRecommendationIds
  active : activeParent parent.status = true
  listed : parent.rollupMemberIds = sortedUnique cluster.memberRecommendationIds
  existing : ∀ old, findById inputs.current parent.id = some old →
    old.rollupMemberIds ≠ [] ∧ activeParent old.status = true
  found : ∀ id ∈ cluster.memberRecommendationIds, ∃ member,
    findById inputs.current id = some member ∧ rolledUpUnder parent.id member ∈ members
  members : ∀ r ∈ members, ∃ member id, id ∈ cluster.memberRecommendationIds ∧
    findById inputs.current id = some member ∧ r = rolledUpUnder parent.id member

section turns
variable {digests : Digests} {inputs : RollupInputs}

theorem clusterRecords_turn {cluster : RollupCluster} {parent : Recommendation}
    (h : clusterRecords digests inputs cluster = some (parent, members)) :
    ClusterTurn digests inputs cluster parent members := by
  unfold clusterRecords at h
  dsimp only at h
  split at h
  · cases h
  · rename_i firstMember _
    split at h
    · cases h
    rename_i hlength
    split at h
    · cases h
    split at h
    · cases h
    rename_i hparent
    split at h
    · cases h
    simp only [Option.some.injEq, Prod.mk.injEq] at h
    obtain ⟨rfl, rfl⟩ := h
    have hall : ∀ id ∈ sortedUnique cluster.memberRecommendationIds,
        ¬ findById inputs.current id = none := by simpa using hlength
    refine ⟨rfl, ?_, rfl, ?_, ?_, ?_⟩
    · change activeParent (if _ then _ else _) = true
      split <;> rfl
    · intro old hold
      change findById inputs.current
        (stableRollupId digests cluster.memberRecommendationIds) = some old at hold
      rw [hold] at hparent
      simp only [Option.any_some, unusableParent, Bool.or_eq_true, not_or,
        Bool.not_eq_true', List.isEmpty_iff, Bool.not_eq_false] at hparent
      exact ⟨hparent.1.1, hparent.1.2⟩
    · intro id hid
      obtain ⟨member, hmember⟩ := Option.ne_none_iff_exists'.mp
        (hall id (mem_sortedUnique_of_mem hid))
      refine ⟨member, hmember, mem_map_of_mem ?_⟩
      exact mem_filterMap.mpr ⟨id, mem_sortedUnique_of_mem hid, hmember⟩
    · intro r hr
      obtain ⟨member, hmember, rfl⟩ := mem_map.mp hr
      obtain ⟨id, hid, hfound⟩ := mem_filterMap.mp hmember
      exact ⟨member, id, mem_sortedUnique hid, hfound, rfl⟩

/-- The member without a parent. -/
def released (member : Recommendation) : Recommendation :=
  { member with status := .proposed, rolledUpBy := none }

/-- What the turn of an old parent found and writes. -/
structure ReleaseTurn (inputs : RollupInputs) (oldParent : Recommendation)
    (records : List Recommendation) : Prop where
  proposed : oldParent.status = .proposed
  supplied : ∀ id ∈ oldParent.rollupMemberIds, id ∈ inputs.suppliedMemberIds
  released : ∀ id ∈ oldParent.rollupMemberIds, id ∉ inputs.assignedMemberIds →
    ∀ member, findById inputs.current id = some member →
      member.rolledUpBy = some oldParent.id → released member ∈ records
  records : ∀ r ∈ records, r.id = oldParent.id ∨ ∃ member id, id ∈ oldParent.rollupMemberIds ∧
    id ∉ inputs.assignedMemberIds ∧ findById inputs.current id = some member ∧
      r = Taskmaster.released member

theorem mapM_some_mem {α β : Type} {f : α → Option β} {l : List α} {out : List β}
    (h : l.mapM f = some out) :
    (∀ a ∈ l, ∃ b ∈ out, f a = some b) ∧ ∀ b ∈ out, ∃ a ∈ l, f a = some b := by
  induction l generalizing out with
  | nil =>
    cases h
    simp
  | cons a l ih =>
    rw [mapM_cons] at h
    obtain ⟨b, hb, h⟩ := Option.bind_eq_some_iff.mp h
    obtain ⟨rest, hrest, h⟩ := Option.bind_eq_some_iff.mp h
    cases h
    obtain ⟨hto, hfrom⟩ := ih hrest
    constructor
    · intro x hx
      rcases mem_cons.mp hx with rfl | hx
      · exact ⟨b, mem_cons_self, hb⟩
      · obtain ⟨y, hy, hxy⟩ := hto x hx
        exact ⟨y, mem_cons_of_mem _ hy, hxy⟩
    · intro y hy
      rcases mem_cons.mp hy with rfl | hy
      · exact ⟨a, mem_cons_self, hb⟩
      · obtain ⟨x, hx, hxy⟩ := hfrom y hy
        exact ⟨x, mem_cons_of_mem _ hx, hxy⟩

theorem releasedRecords_turn (h : releasedRecords inputs oldParent = some records) :
    ReleaseTurn inputs oldParent records := by
  unfold releasedRecords at h
  split at h
  · cases h
  · rename_i hchecks
    obtain ⟨oldMembers, hmembers, h⟩ := Option.bind_eq_some_iff.mp h
    cases h
    obtain ⟨hto, hfrom⟩ := mapM_some_mem hmembers
    simp only [bne_iff_ne, ne_eq, Bool.or_eq_true, Bool.not_eq_true', not_or, Decidable.not_not,
      Bool.not_eq_false, all_eq_true, contains_iff_mem] at hchecks
    refine ⟨hchecks.1, hchecks.2, ?_, ?_⟩
    · intro id hid hunassigned member hmember hby
      obtain ⟨member', hmem, hfound⟩ := hto id (mem_filter.mpr ⟨hid, by simpa using hunassigned⟩)
      rw [hmember, Option.some.injEq] at hfound
      subst hfound
      refine mem_cons_of_mem _ (mem_filterMap.mpr ⟨member, hmem, ?_⟩)
      simp [releasedFrom, hby, Taskmaster.released]
    · intro r hr
      rcases mem_cons.mp hr with rfl | hr
      · exact .inl rfl
      · obtain ⟨member, hmem, hreleased⟩ := mem_filterMap.mp hr
        obtain ⟨id, hid, hfound⟩ := hfrom member hmem
        obtain ⟨hlisted, hunassigned⟩ := mem_filter.mp hid
        unfold releasedFrom at hreleased
        split at hreleased
        · cases hreleased
          exact .inr ⟨member, id, hlisted, by simpa using hunassigned, hfound, rfl⟩
        · cases hreleased

/-- Why a record of the new graph was written. -/
inductive Written (digests : Digests) (inputs : RollupInputs) : Recommendation → Prop
  | parent {cluster : RollupCluster} {parent : Recommendation} {members : List Recommendation}
      (hcluster : cluster ∈ inputs.clusters)
      (turn : ClusterTurn digests inputs cluster parent members) : Written digests inputs parent
  | member {cluster : RollupCluster} {parent member : Recommendation}
      {members : List Recommendation} {id : String} (hcluster : cluster ∈ inputs.clusters)
      (turn : ClusterTurn digests inputs cluster parent members)
      (hid : id ∈ cluster.memberRecommendationIds)
      (found : findById inputs.current id = some member) :
      Written digests inputs (rolledUpUnder parent.id member)
  | superseded {oldParent r : Recommendation} (hparent : oldParent ∈ oldParents digests inputs)
      (hid : r.id = oldParent.id) : Written digests inputs r
  | released {oldParent member : Recommendation} {records : List Recommendation} {id : String}
      (turn : ReleaseTurn inputs oldParent records) (hid : id ∈ oldParent.rollupMemberIds)
      (unassigned : id ∉ inputs.assignedMemberIds)
      (found : findById inputs.current id = some member) :
      Written digests inputs (Taskmaster.released member)

/-- What the two loops write. -/
structure Wrote.Loops (digests : Digests) (inputs : RollupInputs) (graph : RollupGraph)
    (all : List Recommendation) : Prop where
  wrote : Wrote ⟨recordsById inputs.current, ∅⟩ all graph
  reason : ∀ r ∈ all, Written digests inputs r
  clusters : ∀ cluster ∈ inputs.clusters, ∃ parent members,
    ClusterTurn digests inputs cluster parent members ∧ ∀ r ∈ parent :: members, r ∈ all
  parents : ∀ oldParent ∈ oldParents digests inputs, ∃ records,
    ReleaseTurn inputs oldParent records ∧ ∀ r ∈ records, r ∈ all

/-- The records of the two loops, turn by turn. -/
structure Wrote.Turns (digests : Digests) (inputs : RollupInputs) (graph : RollupGraph)
    (all : List Recommendation) : Prop where
  wrote : Wrote ⟨recordsById inputs.current, ∅⟩ all graph
  turn : ∀ r ∈ all,
    (∃ cluster ∈ inputs.clusters, ∃ parent members,
      clusterRecords digests inputs cluster = some (parent, members) ∧ r ∈ parent :: members) ∨
    ∃ oldParent ∈ oldParents digests inputs, ∃ records,
      releasedRecords inputs oldParent = some records ∧ r ∈ records
  clusters : ∀ cluster ∈ inputs.clusters, ∃ parent members,
    clusterRecords digests inputs cluster = some (parent, members) ∧ ∀ r ∈ parent :: members, r ∈ all
  parents : ∀ oldParent ∈ oldParents digests inputs, ∃ records,
    releasedRecords inputs oldParent = some records ∧ ∀ r ∈ records, r ∈ all

theorem rollupGraph_turns {graph : RollupGraph}
    (h : rollupGraph digests inputs legacyUpdates = some graph) :
    (∃ all, Wrote.Turns digests inputs graph all) ∧
      ∀ update ∈ legacyUpdates, update.id ∈ graph.expected.keys := by
  unfold rollupGraph at h
  obtain ⟨clustered, hclusters, hparents⟩ := Option.bind_eq_some_iff.mp h
  obtain ⟨hupdates, hids⟩ := wrote_expect inputs.currentHashes
    ⟨recordsById inputs.current, ∅⟩ (legacyUpdates.map (·.id))
  have hcluster : ∀ g cluster g', applyCluster digests inputs g cluster = some g' →
      ∃ rs, (clusterRecords digests inputs cluster).map (fun records => records.1 :: records.2) =
        some rs ∧ Wrote g rs g' := by
    intro g cluster g' hturn
    obtain ⟨⟨parent, members⟩, hrecords, h⟩ := Option.bind_eq_some_iff.mp hturn
    cases h
    refine ⟨parent :: members, by simp [hrecords], ?_⟩
    exact (wrote_expect _ _ _).1.trans (wrote_store (parent :: members))
  have hrelease : ∀ g oldParent g', releaseParent inputs g oldParent = some g' →
      ∃ rs, releasedRecords inputs oldParent = some rs ∧ Wrote g rs g' := by
    intro g oldParent g' hturn
    obtain ⟨records, hrecords, h⟩ := Option.bind_eq_some_iff.mp hturn
    cases h
    exact ⟨records, hrecords, wrote_store records⟩
  obtain ⟨first, hfirst, hto, hfrom⟩ := wrote_loop hcluster hclusters
  obtain ⟨second, hsecond, hto', hfrom'⟩ := wrote_loop hrelease hparents
  refine ⟨⟨first ++ second, (hupdates.trans hfirst).trans hsecond, ?_, ?_, ?_⟩, ?_⟩
  · intro r hr
    rcases mem_append.mp hr with hr | hr
    · obtain ⟨cluster, hcluster, records, hrecords, hmem⟩ := hfrom r hr
      obtain ⟨⟨parent, members⟩, hturn, rfl⟩ := Option.map_eq_some_iff.mp hrecords
      exact .inl ⟨cluster, hcluster, parent, members, hturn, hmem⟩
    · exact .inr (hfrom' r hr)
  · intro cluster hcluster
    obtain ⟨records, hrecords, hmem⟩ := hto cluster hcluster
    obtain ⟨⟨parent, members⟩, hturn, rfl⟩ := Option.map_eq_some_iff.mp hrecords
    exact ⟨parent, members, hturn, fun r hr => mem_append_left _ (hmem r hr)⟩
  · intro oldParent hparent
    obtain ⟨records, hrecords, hmem⟩ := hto' oldParent hparent
    exact ⟨records, hrecords, fun r hr => mem_append_right _ (hmem r hr)⟩
  · intro update hupdate
    exact hsecond.kept _ (hfirst.kept _ (hids _ (mem_map_of_mem hupdate)))

theorem rollupGraph_loops {graph : RollupGraph}
    (h : rollupGraph digests inputs legacyUpdates = some graph) :
    (∃ all, Wrote.Loops digests inputs graph all) ∧
      ∀ update ∈ legacyUpdates, update.id ∈ graph.expected.keys := by
  obtain ⟨⟨all, hturns⟩, hupdates⟩ := rollupGraph_turns h
  refine ⟨⟨all, hturns.wrote, ?_, ?_, ?_⟩, hupdates⟩
  · intro r hr
    rcases hturns.turn r hr with ⟨cluster, hcluster, parent, members, hturn, hmem⟩ |
      ⟨oldParent, hparent, records, hrecords, hmem⟩
    · have turn := clusterRecords_turn hturn
      rcases mem_cons.mp hmem with rfl | hmem
      · exact .parent hcluster turn
      · obtain ⟨member, id, hid, hfound, rfl⟩ := turn.members r hmem
        exact .member hcluster turn hid hfound
    · have turn := releasedRecords_turn hrecords
      rcases turn.records r hmem with hid | ⟨member, id, hid, hunassigned, hfound, rfl⟩
      · exact .superseded hparent hid
      · exact .released turn hid hunassigned hfound
  · intro cluster hcluster
    obtain ⟨parent, members, hturn, hmem⟩ := hturns.clusters cluster hcluster
    exact ⟨parent, members, clusterRecords_turn hturn, hmem⟩
  · intro oldParent hparent
    obtain ⟨records, hrecords, hmem⟩ := hturns.parents oldParent hparent
    exact ⟨records, releasedRecords_turn hrecords, hmem⟩

end turns

/-! ## The records read -/

/-- What a snapshot that still matches says of the records. -/
structure Matched (stored : List Recommendation) (snapshot : RollupFamilySnapshot)
    (member : Recommendation) : Prop where
  found : findById stored snapshot.recommendationId = some member
  held : ∀ parentId, snapshot.activeParentId = some parentId →
    (∃ parent, findById stored parentId = some parent ∧ parent.status = .proposed) ∧
      member.status = .rolledUp ∧ member.rolledUpBy = some parentId
  free : snapshot.activeParentId = none →
    member.status = .proposed ∧ member.rollupMemberIds = [] ∧ member.rolledUpBy = none

theorem snapshotMatches_matched {digests : Digests} {codec : RollupCodec}
    {snapshot : RollupFamilySnapshot} (h : snapshotMatches digests codec stored snapshot = true) :
    ∃ member, Matched stored snapshot member := by
  unfold snapshotMatches at h
  split at h
  · cases h
  · rename_i member hfound
    refine ⟨member, hfound, ?_, ?_⟩
    · intro parentId hparent
      rw [hparent] at h
      dsimp only at h
      split at h
      · cases h
      · rename_i parent hcurrent
        unfold currentParent at hcurrent
        split at hcurrent
        · cases hcurrent
        · rename_i hparentFound
          split at hcurrent
          · cases hcurrent
          · rename_i hchecks
            simp only [bne_iff_ne, ne_eq, Bool.or_eq_true, not_or, Decidable.not_not] at hchecks
            obtain ⟨⟨⟨hproposed, hstatus⟩, hby⟩, -⟩ := hchecks
            exact ⟨⟨_, hparentFound, hproposed⟩, hstatus, hby⟩
    · intro hnone
      rw [hnone] at h
      dsimp only at h
      split at h
      · cases h
      · rename_i hchecks
        simpa [and_assoc] using hchecks

/-- The update changes the knowledge a stored record cites, and its time, only. -/
def Enriches (stored update : Recommendation) : Prop :=
  update = { stored with
    knowledgeEvidence := update.knowledgeEvidence, updatedAt := update.updatedAt }

theorem keyed_written {map : TextMap Recommendation} (h : Keyed map)
    (records : List Recommendation) : Keyed (written map records) := by
  intro id r hget
  by_cases hid : id ∈ records.map (·.id)
  · obtain ⟨r', -, hid', hget'⟩ := written_get_of_mem map hid
    rw [hget, Option.some.injEq] at hget'
    rw [hget', hid']
  · rw [written_get_of_notMem hid] at hget
    exact h id r hget

theorem keyed_recordsById (records : List Recommendation) : Keyed (recordsById records) := by
  refine keyed_written ?_ records
  intro id r hget
  rw [get_empty] at hget
  cases hget

theorem findById_projected (stored legacyUpdates : List Recommendation) (id : String) :
    findById (projected stored legacyUpdates) id =
      (written (recordsById stored) legacyUpdates)[id]? :=
  findById_values (keyed_written (keyed_recordsById stored) legacyUpdates) id

theorem projected_enriched (hids : (stored.map (·.id)).Nodup)
    (hupdates : ∀ update ∈ legacyUpdates, ∀ r ∈ stored, r.id = update.id → Enriches r update)
    {r : Recommendation} (hr : r ∈ stored) :
    ∃ r', findById (projected stored legacyUpdates) r.id = some r' ∧ Enriches r r' ∧
      (r' = r ∨ r' ∈ legacyUpdates) := by
  rw [findById_projected]
  by_cases hid : r.id ∈ legacyUpdates.map (·.id)
  · obtain ⟨update, hupdate, hsame, hget⟩ := written_get_of_mem (recordsById stored) hid
    exact ⟨update, hget, hupdates update hupdate r hr hsame.symm, .inr hupdate⟩
  · rw [written_get_of_notMem hid]
    exact ⟨r, (recordsById_get hids).mpr ⟨hr, rfl⟩, rfl, .inl rfl⟩

/-! ## Where the members end up -/

/-- What the call knows when it has worked out its graph. -/
structure Setting (digests : Digests) (stored legacyUpdates : List Recommendation)
    (inputs : RollupInputs) : Prop where
  graph : Graph.Ok digests stored
  matched : ∀ snapshot ∈ inputs.suppliedSnapshots, ∃ member, Matched stored snapshot member
  current : inputs.current = projected stored legacyUpdates
  updates : ∀ update ∈ legacyUpdates, ∀ r ∈ stored, r.id = update.id → Enriches r update
  members : ∀ cluster ∈ inputs.clusters, ∀ id ∈ cluster.memberRecommendationIds,
    id ∈ inputs.suppliedMemberIds

/-- A member that is proposed on its own, or rolled up under one active parent
that lists it. -/
def Settled (stored : Recommendation → Prop) (member : Recommendation) : Prop :=
  (member.status = .proposed ∧ member.rolledUpBy = none) ∨
    (member.status = .rolledUp ∧ ∃! parent, stored parent ∧ activeParent parent.status = true ∧
      member.id ∈ parent.rollupMemberIds)

section members
variable {digests : Digests} {stored legacyUpdates : List Recommendation} {inputs : RollupInputs}

theorem Setting.member (h : Setting digests stored legacyUpdates inputs)
    {snapshot : RollupFamilySnapshot} (hsnapshot : snapshot ∈ inputs.suppliedSnapshots) :
    ∃ member seen, Matched stored snapshot member ∧
      findById inputs.current snapshot.recommendationId = some seen ∧ Enriches member seen ∧
      (seen = member ∨ seen ∈ legacyUpdates) := by
  obtain ⟨member, hmatched⟩ := h.matched snapshot hsnapshot
  obtain ⟨hmem, hid⟩ := findById_mem hmatched.found
  obtain ⟨seen, hseen, henriched, hfrom⟩ := projected_enriched h.graph.ids h.updates hmem
  rw [← h.current, hid] at hseen
  exact ⟨member, seen, hmatched, hseen, henriched, hfrom⟩

variable {snapshot : RollupFamilySnapshot} {member : Recommendation}

theorem Matched.not_parent (h : Matched stored snapshot member) :
    ¬ (member.rollupMemberIds ≠ [] ∧ activeParent member.status = true) := by
  intro hparent
  cases hactive : snapshot.activeParentId with
  | none => exact hparent.1 (h.free hactive).2.1
  | some parentId =>
    have hstatus := (h.held parentId hactive).2.1
    rw [hstatus] at hparent
    cases hparent.2

variable {cluster : RollupCluster} {parent : Recommendation}

theorem Setting.not_retained (h : Setting digests stored legacyUpdates inputs)
    (turn : ClusterTurn digests inputs cluster parent members) :
    parent.id ∉ inputs.suppliedMemberIds := by
  intro hsupplied
  obtain ⟨snapshot, hsnapshot, hid⟩ := mem_map.mp hsupplied
  obtain ⟨member, seen, hmatched, hseen, henriched, -⟩ := h.member hsnapshot
  have hold := turn.existing seen (hid ▸ hseen)
  rw [henriched] at hold
  exact hmatched.not_parent hold

variable {id : String}

theorem Setting.not_oldParent (h : Setting digests stored legacyUpdates inputs)
    (hid : id ∈ inputs.suppliedParentIds) : id ∉ inputs.suppliedMemberIds := by
  intro hsupplied
  obtain ⟨child, hchild, hparent⟩ := mem_filterMap.mp hid
  obtain ⟨member, hmember⟩ := h.matched child hchild
  obtain ⟨⟨parent, hfound, hproposed⟩, -, hby⟩ := hmember.held id hparent
  -- in a valid graph the parent lists the member that points at it
  obtain ⟨parent', hfound', hcount⟩ :=
    (h.graph.nodes member (findById_mem hmember.found).1).parent id hby
  rw [hfound, Option.some.injEq] at hfound'
  subst hfound'
  obtain ⟨snapshot, hsnapshot, hsame⟩ := mem_map.mp hsupplied
  obtain ⟨other, hother⟩ := h.matched snapshot hsnapshot
  have hsame' := hother.found
  rw [hsame, hfound, Option.some.injEq] at hsame'
  subst hsame'
  refine hother.not_parent ⟨?_, by rw [hproposed]; rfl⟩
  intro hnil
  rw [hnil, count_nil] at hcount
  cases hcount

theorem mem_oldParents :
    oldParent ∈ oldParents digests inputs ↔ oldParent ∈ inputs.current ∧
      oldParent.id ∈ inputs.suppliedParentIds ∧
      oldParent.id ∉ inputs.retainedParentIds digests := by
  simp [oldParents, mem_filter]

variable {seen : Recommendation}

variable {r : Recommendation}

theorem Setting.written_member (h : Setting digests stored legacyUpdates inputs)
    (hwritten : Written digests inputs r) (hsupplied : r.id ∈ inputs.suppliedMemberIds)
    (hseen : findById inputs.current r.id = some seen) :
    (r.id ∈ inputs.assignedMemberIds ∧ ∃ cluster ∈ inputs.clusters,
        r = rolledUpUnder (stableRollupId digests cluster.memberRecommendationIds) seen) ∨
      (r.id ∉ inputs.assignedMemberIds ∧ r = released seen) := by
  cases hwritten with
  | parent hcluster turn => exact absurd hsupplied (h.not_retained turn)
  | @member cluster parent member members id hcluster turn hid found =>
    have hmember : member.id = id := (findById_mem found).2
    change findById inputs.current member.id = some seen at hseen
    rw [hmember, found, Option.some.injEq] at hseen
    subst hseen
    refine .inl ⟨?_, cluster, hcluster, by rw [turn.id]⟩
    exact mem_flatMap.mpr ⟨cluster, hcluster, hmember.symm ▸ hid⟩
  | superseded hparent hid =>
    rw [hid] at hsupplied
    exact absurd hsupplied (h.not_oldParent (mem_oldParents.mp hparent).2.1)
  | @released oldParent member records id turn hid unassigned found =>
    have hmember : member.id = id := (findById_mem found).2
    change findById inputs.current member.id = some seen at hseen
    rw [hmember, found, Option.some.injEq] at hseen
    subst hseen
    exact .inr ⟨hmember.symm ▸ unassigned, rfl⟩

theorem Setting.written_parent (h : Setting digests stored legacyUpdates inputs)
    (hwritten : Written digests inputs r) (hretained : r.id ∈ inputs.retainedParentIds digests)
    (houtside : r.id ∉ inputs.suppliedMemberIds) :
    activeParent r.status = true ∧ ∃ cluster ∈ inputs.clusters,
      r.rollupMemberIds = sortedUnique cluster.memberRecommendationIds := by
  cases hwritten with
  | @parent cluster _ members hcluster turn =>
    exact ⟨turn.active, cluster, hcluster, turn.listed⟩
  | @member cluster parent member members id hcluster turn hid found =>
    have hmember : member.id = id := (findById_mem found).2
    exact absurd (hmember.symm ▸ h.members cluster hcluster id hid) houtside
  | superseded hparent hid =>
    rw [hid] at hretained
    exact absurd hretained (mem_oldParents.mp hparent).2.2
  | @released oldParent member records id turn hid unassigned found =>
    have hmember : member.id = id := (findById_mem found).2
    exact absurd (hmember.symm ▸ turn.supplied id hid) houtside

variable {graph : RollupGraph} {all records : List Recommendation}

theorem Setting.current_ids (h : Setting digests stored legacyUpdates inputs) :
    (inputs.current.map (·.id)).Nodup := by
  rw [h.current]
  exact values_ids_nodup (keyed_written (keyed_recordsById stored) legacyUpdates)

theorem Setting.current_get (h : Setting digests stored legacyUpdates inputs) (id : String) :
    (recordsById inputs.current)[id]? = findById inputs.current id := by
  apply Option.ext
  intro r
  rw [recordsById_get h.current_ids, findById_eq_some_iff h.current_ids]

theorem Wrote.Loops.assigned (hloops : Wrote.Loops digests inputs graph all)
    (hid : id ∈ inputs.assignedMemberIds) : id ∈ all.map (·.id) := by
  obtain ⟨cluster, hcluster, hmem⟩ := mem_flatMap.mp hid
  obtain ⟨parent, members, turn, hall⟩ := hloops.clusters cluster hcluster
  obtain ⟨member, hfound, hrolled⟩ := turn.found id hmem
  have hmember : member.id = id := (findById_mem hfound).2
  exact mem_map.mpr ⟨_, hall _ (mem_cons_of_mem _ hrolled), hmember⟩

theorem Setting.retained_record (h : Setting digests stored legacyUpdates inputs)
    (hloops : Wrote.Loops digests inputs graph all) (hget : graph.working[parent.id]? = some parent)
    (hretained : parent.id ∈ inputs.retainedParentIds digests) :
    activeParent parent.status = true ∧ ∃ cluster ∈ inputs.clusters,
      parent.rollupMemberIds = sortedUnique cluster.memberRecommendationIds := by
  obtain ⟨cluster, hcluster, hid⟩ := mem_map.mp hretained
  obtain ⟨made, members, turn, hall⟩ := hloops.clusters cluster hcluster
  have hsame : made.id = parent.id := turn.id.trans hid
  obtain ⟨r, hr, hrid, hget'⟩ := written_get_of_mem (recordsById inputs.current)
    (mem_map.mpr ⟨made, hall _ mem_cons_self, hsame⟩)
  rw [hloops.wrote.working] at hget
  rw [hget, Option.some.injEq] at hget'
  subst hget'
  refine h.written_parent (hloops.reason _ hr) hretained ?_
  rw [← hsame]
  exact h.not_retained turn

theorem Setting.rolled_settled (h : Setting digests stored legacyUpdates inputs)
    (hloops : Wrote.Loops digests inputs graph all) (hrecords : Graph.Ok digests records)
    (hworking : ∀ r ∈ records, graph.working[r.id]? = some r) (hmember : member ∈ records)
    (hstatus : member.status = .rolledUp) (hcluster : cluster ∈ inputs.clusters)
    (hby : member.rolledUpBy = some (stableRollupId digests cluster.memberRecommendationIds)) :
    Settled (· ∈ records) member := by
  obtain ⟨parent, hfound, hcount⟩ := (hrecords.nodes member hmember).parent _ hby
  obtain ⟨hparent, hid⟩ := findById_mem hfound
  have hretained : parent.id ∈ inputs.retainedParentIds digests :=
    mem_map.mpr ⟨cluster, hcluster, hid.symm⟩
  obtain ⟨hactive, -⟩ := h.retained_record hloops (hworking parent hparent) hretained
  have hlisted : member.id ∈ parent.rollupMemberIds :=
    count_pos_iff.mp (hcount ▸ Nat.one_pos)
  refine .inr ⟨hstatus, parent, ⟨hparent, hactive, hlisted⟩, ?_⟩
  intro other hother
  obtain ⟨hmem, hactive', hlists⟩ := hother
  -- an active parent owns what it lists, so it is the one the member points at
  obtain ⟨member', hmember', -, hby'⟩ := (hrecords.nodes other hmem).owns hactive' _ hlists
  rw [findById_of_mem hrecords.ids hmember, Option.some.injEq] at hmember'
  rw [← hmember', hby, Option.some.injEq, ← hid] at hby'
  have hfound' := findById_of_mem hrecords.ids hmem
  rw [← hby', hid, hfound, Option.some.injEq] at hfound'
  exact hfound'.symm

theorem Setting.unwritten_free (h : Setting digests stored legacyUpdates inputs)
    (hloops : Wrote.Loops digests inputs graph all) (hrecords : Graph.Ok digests records)
    (hworking : ∀ r ∈ records, graph.working[r.id]? = some r)
    (hmatched : Matched stored snapshot member) (hsnapshot : snapshot ∈ inputs.suppliedSnapshots)
    (hseen : findById inputs.current snapshot.recommendationId = some seen)
    (henriched : Enriches member seen) (hmem : seen ∈ records)
    (hunwritten : seen.id ∉ all.map (·.id)) : snapshot.activeParentId = none := by
  cases hactive : snapshot.activeParentId with
  | none => rfl
  | some parentId =>
    exfalso
    have hid : seen.id = snapshot.recommendationId := (findById_mem hseen).2
    obtain ⟨⟨parent, hparent, -⟩, -, hby⟩ := hmatched.held parentId hactive
    have hunassigned : seen.id ∉ inputs.assignedMemberIds :=
      fun hassigned => hunwritten (hloops.assigned hassigned)
    by_cases hretained : parentId ∈ inputs.retainedParentIds digests
    · -- the parent goes on with the members of a cluster, and this is not one of them
      have hby' : seen.rolledUpBy = some parentId := by rw [henriched]; exact hby
      obtain ⟨kept, hkept, hcount⟩ := (hrecords.nodes seen hmem).parent parentId hby'
      obtain ⟨hkeptMem, hkeptId⟩ := findById_mem hkept
      obtain ⟨-, cluster, hcluster, hmembers⟩ := h.retained_record hloops
        (hworking kept hkeptMem) (hkeptId.symm ▸ hretained)
      have hlisted : seen.id ∈ kept.rollupMemberIds :=
        count_pos_iff.mp (hcount ▸ Nat.one_pos)
      rw [hmembers] at hlisted
      exact hunassigned (mem_flatMap.mpr ⟨cluster, hcluster, mem_sortedUnique hlisted⟩)
    · -- the parent was superseded and released the member
      obtain ⟨hparentMem, hparentId⟩ := findById_mem hparent
      obtain ⟨oldParent, hold, holdEnriched, -⟩ :=
        projected_enriched h.graph.ids h.updates hparentMem
      rw [← h.current, hparentId] at hold
      obtain ⟨holdMem, holdId⟩ := findById_mem hold
      obtain ⟨stored', hstored', hcount⟩ :=
        (h.graph.nodes member (findById_mem hmatched.found).1).parent parentId hby
      rw [hparent, Option.some.injEq] at hstored'
      subst hstored'
      have hlisted : seen.id ∈ oldParent.rollupMemberIds := by
        rw [holdEnriched, hid, ← (findById_mem hmatched.found).2]
        exact count_pos_iff.mp (hcount ▸ Nat.one_pos)
      obtain ⟨released, turn, hall⟩ := hloops.parents oldParent (mem_oldParents.mpr
        ⟨holdMem, holdId ▸ mem_filterMap.mpr ⟨snapshot, hsnapshot, hactive⟩, holdId ▸ hretained⟩)
      have hby' : seen.rolledUpBy = some oldParent.id := by
        rw [henriched, holdId]
        exact hby
      have hwritten := hall _ (turn.released seen.id hlisted hunassigned seen (hid ▸ hseen) hby')
      exact hunwritten (mem_map.mpr ⟨_, hwritten, rfl⟩)

/-- The evidence of a member is as it was, but for the knowledge an update cites. -/
structure SameEvidence (legacyUpdates : List Recommendation) (before after : Recommendation) :
    Prop where
  observed : after.evidence = before.evidence
  repository : after.repositoryEvidence = before.repositoryEvidence
  knowledge : after.knowledgeEvidence = before.knowledgeEvidence ∨
    ∃ update ∈ legacyUpdates, update.id = before.id ∧
      after.knowledgeEvidence = update.knowledgeEvidence

theorem Enriches.sameEvidence (h : Enriches member seen)
    (hfrom : seen = member ∨ seen ∈ legacyUpdates) : SameEvidence legacyUpdates member seen where
  observed := by rw [h]
  repository := by rw [h]
  knowledge := by
    rcases hfrom with rfl | hmem
    · exact .inl rfl
    · exact .inr ⟨seen, hmem, by rw [h], rfl⟩

theorem Setting.settled (h : Setting digests stored legacyUpdates inputs)
    (hloops : Wrote.Loops digests inputs graph all) (hrecords : Graph.Ok digests records)
    (hworking : ∀ r ∈ records, graph.working[r.id]? = some r)
    (hsnapshot : snapshot ∈ inputs.suppliedSnapshots) {after : Recommendation}
    (hafter : after ∈ records) (hid : after.id = snapshot.recommendationId) :
    ∃ member, Matched stored snapshot member ∧ Settled (· ∈ records) after ∧
      SameEvidence legacyUpdates member after := by
  obtain ⟨member, seen, hmatched, hseen, henriched, hfrom⟩ := h.member hsnapshot
  have hsame := henriched.sameEvidence hfrom
  have hget := hworking after hafter
  rw [hloops.wrote.working] at hget
  refine ⟨member, hmatched, ?_⟩
  by_cases hwritten : after.id ∈ all.map (·.id)
  · obtain ⟨r, hr, -, hget'⟩ := written_get_of_mem (recordsById inputs.current) hwritten
    rw [hget, Option.some.injEq] at hget'
    subst hget'
    have hsupplied : after.id ∈ inputs.suppliedMemberIds :=
      mem_map.mpr ⟨snapshot, hsnapshot, hid.symm⟩
    rcases h.written_member (hloops.reason _ hr) hsupplied (hid ▸ hseen) with
      ⟨-, cluster, hcluster, hrolled⟩ | ⟨-, hreleased⟩
    · refine ⟨h.rolled_settled hloops hrecords hworking hafter (by rw [hrolled]; rfl) hcluster
        (by rw [hrolled]; rfl), ?_⟩
      rw [hrolled]
      exact ⟨hsame.observed, hsame.repository, hsame.knowledge⟩
    · rw [hreleased]
      exact ⟨.inl ⟨rfl, rfl⟩, hsame.observed, hsame.repository, hsame.knowledge⟩
  · rw [written_get_of_notMem hwritten, h.current_get, hid, hseen, Option.some.injEq] at hget
    subst hget
    have hfree := h.unwritten_free hloops hrecords hworking hmatched hsnapshot hseen henriched
      hafter hwritten
    obtain ⟨hstatus, -, hby⟩ := hmatched.free hfree
    refine ⟨.inl ⟨?_, ?_⟩, hsame⟩
    · rw [henriched]
      exact hstatus
    · rw [henriched]
      exact hby

end members

end Orkworksd.Taskmaster
