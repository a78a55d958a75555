import Orkworksd.Taskmaster.ModelOutput

/- Which cited pages are in the store once an answer has been applied.

   Every enrichment of an answer starts from the record that was read, and the records are
   stored in the order of the enrichments. So of several enrichments for one key only the last
   one's pages are stored: `enrichments_kept_iff` says exactly which answers keep every page
   they cite, for each of the three ways an answer is stored.

     1. Without a rollup request, and for an exact family always: a page stays if the record
        had it or the last enrichment for the key cites it.
     2. With a degraded rollup section, updates of rollup records are not stored.
     3. With clusters, the parent of a cluster is stored without knowledge evidence.

   `FreshIds` is what is assumed of the hash in the id of a proposal: it is not the id of a
   stored record with another key. -/
namespace Orkworksd.Taskmaster
open Lib List TextMap

variable {r : Recommendation}

variable {raw : Option RawModelOutput} {request : SuppliedRollup} {update : Recommendation}

/-! ## What an answer cites -/

/-- The record cites this version of the page. -/
def HasPage (page : KnowledgePage) (r : Recommendation) : Prop :=
  r.knowledgeEvidence.any (cites page) = true

/-- The page is cited by an enrichment of the answer, and the enrichment is for `r`. -/
structure Cited (context : ApplyContext) (model : ModelOutput) (records : Records)
    (enrichment : ModelEnrichment) (page : KnowledgePage) (r : Recommendation) : Prop where
  given : enrichment ∈ model.enrichments
  cited : ∃ pageId ∈ enrichment.knowledgePageIds, context.page pageId = some page
  family : enrichedRecommendation (listing records) enrichment.dedupeKey = some r

/-- Every cited page is in the evidence of its family's recommendation in `next`. -/
def EnrichmentsKept (context : ApplyContext) (model : ModelOutput) (records next : Records) :
    Prop :=
  ∀ enrichment page r, Cited context model records enrichment page r →
    ∃ r', next[r.id]? = some r' ∧ HasPage page r'

def lastFor (enrichments : List ModelEnrichment) (dedupeKey : String) : Option ModelEnrichment :=
  enrichments.reverse.find? (fun enrichment => enrichment.dedupeKey == dedupeKey)

def CitedLast (model : ModelOutput) (dedupeKey : String) (page : KnowledgePage) : Prop :=
  ∃ last, lastFor model.enrichments dedupeKey = some last ∧ page.id ∈ last.knowledgePageIds

/-- The rollup section asked for is degraded. -/
def Degraded (context : ApplyContext) (model : ModelOutput) : Prop :=
  context.rollupRequest.isSome = true ∧
    (resolvedRollups context model.rollups).isOk = false

/-- `id` is the id of the parent of a cluster of the answer. -/
def ClusterParentId (digests : Digests) (context : ApplyContext) (model : ModelOutput)
    (id : String) : Prop :=
  context.rollupRequest.isSome = true ∧ ∃ clusters,
    resolvedRollups context model.rollups = .ok clusters ∧
      ∃ cluster ∈ clusters, stableRollupId digests cluster.memberRecommendationIds = id

/-- The condition under which a cited page stays. -/
structure PageStays (digests : Digests) (context : ApplyContext) (model : ModelOutput)
    (enrichment : ModelEnrichment) (page : KnowledgePage) (r : Recommendation) : Prop where
  cited : HasPage page r ∨ (CitedLast model enrichment.dedupeKey page ∧
    ¬ (Degraded context model ∧ isRollupRecord r = true))
  single : ¬ ClusterParentId digests context model r.id

/-- No stored record has the id of a proposal with another key. -/
def FreshIds (digests : Digests) (records : Records) : Prop :=
  ∀ dedupeKey, (∀ r ∈ listing records, r.dedupeKey ≠ dedupeKey) →
    ∀ r ∈ listing records, r.id ≠ proactiveId digests dedupeKey

/-! ## One enrichment -/

section pages
variable {context : ApplyContext} {page : KnowledgePage}

theorem page_id {id : String} (h : context.page id = some page) : page.id = id := by
  have htest := List.find?_some h
  exact beq_iff_eq.mp htest

variable {pageId : String}

theorem cites_pageEvidence {version : String} {other : KnowledgePage}
    (hpage : context.page page.id = some page) (hother : context.page pageId = some other) :
    cites page (pageEvidence version other) = true ↔ pageId = page.id := by
  have hid := page_id hother
  constructor
  · intro h
    rw [cites, Bool.and_eq_true, beq_iff_eq] at h
    exact hid.symm.trans h.1
  · intro h
    rw [h, hpage, Option.some.injEq] at hother
    subst hother
    simp [cites, pageEvidence]

theorem citePage_cites (hpage : context.page page.id = some page)
    (knowledge : List KnowledgeEvidence) (hknown : (context.page pageId).isSome = true) :
    (citePage context knowledge pageId).any (cites page) = true ↔
      knowledge.any (cites page) = true ∨ pageId = page.id := by
  obtain ⟨other, hother⟩ := Option.isSome_iff_exists.mp hknown
  rw [citePage, hother]
  dsimp only
  split
  · rename_i hold
    refine ⟨.inl, ?_⟩
    intro h
    rcases h with h | h
    · exact h
    · rw [h, hpage, Option.some.injEq] at hother
      rw [hother]
      exact hold
  · rw [any_append, Bool.or_eq_true, any_cons, any_nil, Bool.or_false,
      cites_pageEvidence hpage hother]

theorem foldl_citePage (hpage : context.page page.id = some page) {pageIds : List String}
    (hknown : ∀ pageId ∈ pageIds, (context.page pageId).isSome = true)
    (knowledge : List KnowledgeEvidence) :
    (pageIds.foldl (citePage context) knowledge).any (cites page) = true ↔
      knowledge.any (cites page) = true ∨ page.id ∈ pageIds := by
  induction pageIds generalizing knowledge with
  | nil => simp
  | cons pageId rest ih =>
    rw [foldl_cons, ih (fun id hid => hknown id (mem_cons_of_mem _ hid)),
      citePage_cites hpage knowledge (hknown pageId mem_cons_self), mem_cons, or_assoc,
      eq_comm (a := pageId)]

/-- The record as an enrichment leaves it. -/
def enrichedBy (context : ApplyContext) (enrichment : ModelEnrichment) (r : Recommendation) :
    Recommendation :=
  { r with
    knowledgeEvidence := enrichment.knowledgePageIds.foldl (citePage context) r.knowledgeEvidence
    updatedAt := context.now }

theorem enrichmentUpdate_eq (recommendations : List Recommendation)
    (enrichment : ModelEnrichment) :
    enrichmentUpdate context recommendations enrichment =
      (enrichedRecommendation recommendations enrichment.dedupeKey).map
        (enrichedBy context enrichment) := rfl

theorem enriches_enrichedBy (enrichment : ModelEnrichment) (r : Recommendation) :
    Enriches r (enrichedBy context enrichment r) := rfl

theorem enrichedRecommendation_some {recommendations : List Recommendation} {dedupeKey : String}
    (h : enrichedRecommendation recommendations dedupeKey = some r) :
    r ∈ recommendations ∧ r.dedupeKey = dedupeKey := by
  have htest := List.find?_some h
  rw [Bool.and_eq_true, beq_iff_eq] at htest
  exact ⟨mem_of_find?_eq_some h, htest.1⟩

end pages

/-! ## The updates -/

section updates
variable {digests : Digests} {context : ApplyContext} {records : Records}

/-- The updates of the enrichments put over a map: at the id of a record, the last enrichment
for its key. -/
theorem written_enrichments (hkeyed : Keyed records) {dedupeKey : String}
    (hr : enrichedRecommendation (listing records) dedupeKey = some r)
    (enrichments : List ModelEnrichment) (map : Records) :
    (written map (enrichments.filterMap (enrichmentUpdate context (listing records))))[r.id]? =
      ((lastFor enrichments dedupeKey).map (fun last => enrichedBy context last r)).or map[r.id]? := by
  obtain ⟨hmem, hkey⟩ := enrichedRecommendation_some hr
  induction enrichments using List.reverseRecOn with
  | nil => rfl
  | append_singleton rest last ih =>
    have hlast : lastFor (rest ++ [last]) dedupeKey =
        if last.dedupeKey = dedupeKey then some last else lastFor rest dedupeKey := by
      rw [lastFor, reverse_append, reverse_singleton, singleton_append, List.find?_cons]
      by_cases h : last.dedupeKey = dedupeKey
      · rw [if_pos h, beq_iff_eq.mpr h]
      · rw [if_neg h, beq_eq_false_iff_ne.mpr h]
        rfl
    rw [filterMap_append, written_append, hlast]
    by_cases h : last.dedupeKey = dedupeKey
    · have hupdate : [last].filterMap (enrichmentUpdate context (listing records)) =
          [enrichedBy context last r] := by
        rw [filterMap_cons, enrichmentUpdate_eq, h, hr]
        rfl
      rw [hupdate, if_pos h]
      exact get_insert_self
    · rw [if_neg h, ← ih]
      -- an enrichment for another key is for another record
      refine written_get_of_notMem ?_
      intro hid
      obtain ⟨update, hupdate, hsame⟩ := mem_map.mp hid
      obtain ⟨other, hother, hupdate⟩ := mem_filterMap.mp hupdate
      rw [mem_singleton.mp hother, enrichmentUpdate_eq] at hupdate
      obtain ⟨r', hr', rfl⟩ := Option.map_eq_some_iff.mp hupdate
      obtain ⟨hmem', hkey'⟩ := enrichedRecommendation_some hr'
      have heq : r' = r :=
        inj_on_of_nodup_map (listing_ids_nodup hkeyed) hmem' hmem hsame
      rw [heq, hkey] at hkey'
      exact h hkey'.symm

theorem proposal_ids (hfresh : FreshIds digests records) {workspacePath : String}
    {proposals : List ModelProposal}
    (hupdate : update ∈
      (proposalProgress digests context workspacePath (listing records) proposals).records)
    (hr : r ∈ listing records) : r.id ≠ update.id := by
  have hinv : ∀ (rest : List ModelProposal) (progress : ProposalProgress),
      (∀ r ∈ listing records, r.dedupeKey ∈ progress.seen) →
      (∀ u ∈ progress.records, ∀ r ∈ listing records, r.id ≠ u.id) →
      ∀ u ∈ (rest.foldl (propose digests context workspacePath) progress).records,
        ∀ r ∈ listing records, r.id ≠ u.id := by
    intro rest
    induction rest with
    | nil =>
      intro progress _ hids
      exact hids
    | cons proposal rest ih =>
      intro progress hseen hids
      rw [foldl_cons]
      refine ih _ ?_ ?_
      · intro r hr
        rw [propose]
        split
        · exact hseen r hr
        · dsimp only
          split
          · exact hseen r hr
          · exact mem_cons_of_mem _ (hseen r hr)
      · rw [propose]
        split
        · exact hids
        · dsimp only
          split
          · exact hids
          · rename_i hnew
            intro u hu r hr
            rcases mem_append.mp hu with hu | hu
            · exact hids u hu r hr
            · rw [mem_singleton.mp hu]
              refine hfresh _ ?_ r hr
              intro other hother heq
              refine hnew (contains_iff_mem.mpr ?_)
              rw [← heq]
              exact hseen other hother
  refine hinv proposals _ ?_ ?_ update hupdate r hr
  · intro r hr
    exact mem_map_of_mem hr
  · intro u hu
    cases hu

end updates

/-! ## Storing the updates one by one -/

section putting
variable {digests : Digests} {records next : Records} {updates : List Recommendation}

theorem putEach_stored (h : (putEach digests updates records).2 = true) :
    (putEach digests updates records).1 = written records updates := by
  induction updates generalizing records with
  | nil => rfl
  | cons update rest ih =>
    rw [putEach] at h ⊢
    cases hput : putResult digests update records with
    | error e =>
      rw [hput] at h
      cases h
    | ok next =>
      rw [hput] at h
      obtain ⟨-, rfl⟩ := putResult_ok.mp hput
      exact ih h

variable {p : Recommendation → Bool} {id : String}

theorem written_filter_keeps (h : ∀ update ∈ updates, update.id = id → p update = true)
    (map : Records) : (written map (updates.filter p))[id]? = (written map updates)[id]? := by
  induction updates using List.reverseRecOn with
  | nil => rfl
  | append_singleton rest last ih =>
    have hrest := ih (fun update hupdate => h update (mem_append_left _ hupdate))
    have hlast := h last (mem_append_right _ mem_cons_self)
    rw [filter_append, written_append, written_append]
    by_cases hid : last.id = id
    · rw [filter_cons_of_pos (hlast hid), filter_nil]
      show ((written map (rest.filter p)).insert last.id last)[id]? =
        ((written map rest).insert last.id last)[id]?
      rw [hid, get_insert_self, get_insert_self]
    · have hother : ∀ m : Records, (written m [last])[id]? = m[id]? := by
        intro m
        exact get_insert_ne hid
      rw [hother, ← hrest]
      by_cases hp : p last = true
      · rw [filter_cons_of_pos hp, filter_nil]
        exact hother _
      · rw [filter_cons_of_neg hp, filter_nil]
        rfl

theorem written_filter_drops (h : ∀ update ∈ updates, update.id = id → p update = false)
    (map : Records) : (written map (updates.filter p))[id]? = map[id]? := by
  refine written_get_of_notMem ?_
  intro hid
  obtain ⟨update, hupdate, hsame⟩ := mem_map.mp hid
  obtain ⟨hmem, hp⟩ := mem_filter.mp hupdate
  rw [h update hmem hsame] at hp
  cases hp

end putting

/-! ## Storing the updates with clusters -/

section clusters
variable {digests : Digests} {stored legacyUpdates : List Recommendation} {inputs : RollupInputs}
  {graph : RollupGraph}

theorem clusterRecords_knowledge {cluster : RollupCluster} {parent : Recommendation}
    {members : List Recommendation}
    (h : clusterRecords digests inputs cluster = some (parent, members)) :
    parent.knowledgeEvidence = [] := by
  unfold clusterRecords at h
  dsimp only at h
  split at h
  · cases h
  · split at h
    · cases h
    split at h
    · cases h
    split at h
    · cases h
    split at h
    · cases h
    simp only [Option.some.injEq, Prod.mk.injEq] at h
    obtain ⟨rfl, rfl⟩ := h
    rfl

theorem releasedRecords_cases {oldParent : Recommendation} {records : List Recommendation}
    (h : releasedRecords inputs oldParent = some records) (hr : r ∈ records) :
    (r.id = oldParent.id ∧ r.knowledgeEvidence = oldParent.knowledgeEvidence) ∨
      ∃ member, member.id ∈ oldParent.rollupMemberIds ∧
        findById inputs.current member.id = some member ∧ r.id = member.id ∧
          r.knowledgeEvidence = member.knowledgeEvidence := by
  unfold releasedRecords at h
  split at h
  · cases h
  · obtain ⟨oldMembers, hmembers, h⟩ := Option.bind_eq_some_iff.mp h
    cases h
    rcases mem_cons.mp hr with rfl | hr
    · exact .inl ⟨rfl, rfl⟩
    · obtain ⟨member, hmem, hreleased⟩ := mem_filterMap.mp hr
      obtain ⟨id, hid, hfound⟩ := (mapM_some_mem hmembers).2 member hmem
      have hsame := (findById_mem hfound).2
      obtain ⟨hlisted, -⟩ := mem_filter.mp hid
      unfold releasedFrom at hreleased
      split at hreleased
      · cases hreleased
        exact .inr ⟨member, hsame ▸ hlisted, hsame ▸ hfound, rfl, rfl⟩
      · cases hreleased

/-- What the new graph has at the id of a record: the record's knowledge evidence, or none when
the id is the parent's of a cluster. -/
theorem Setting.knowledge (h : Setting digests stored legacyUpdates inputs)
    (hgraph : rollupGraph digests inputs legacyUpdates = some graph)
    (hr : findById inputs.current r.id = some r) :
    ∃ r', graph.working[r.id]? = some r' ∧
      (r.id ∈ inputs.retainedParentIds digests → r'.knowledgeEvidence = []) ∧
      (r.id ∉ inputs.retainedParentIds digests → r'.knowledgeEvidence = r.knowledgeEvidence) := by
  obtain ⟨⟨all, hturns⟩, -⟩ := rollupGraph_turns hgraph
  rw [hturns.wrote.working]
  have hnotRetained : r.id ∈ inputs.suppliedMemberIds → r.id ∉ inputs.retainedParentIds digests := by
    intro hsupplied hretained
    obtain ⟨cluster, hcluster, hid⟩ := mem_map.mp hretained
    obtain ⟨parent, members, hturn, -⟩ := hturns.clusters cluster hcluster
    have turn := clusterRecords_turn hturn
    exact h.not_retained turn (by rw [turn.id, hid]; exact hsupplied)
  by_cases hall : r.id ∈ all.map (·.id)
  · obtain ⟨r', hr', hid', hget⟩ := written_get_of_mem (recordsById inputs.current) hall
    refine ⟨r', hget, ?_⟩
    rcases hturns.turn r' hr' with ⟨cluster, hcluster, parent, members, hturn, hmem⟩ |
      ⟨oldParent, hparent, records, hrecords, hmem⟩
    · have turn := clusterRecords_turn hturn
      rcases mem_cons.mp hmem with rfl | hmem
      · refine ⟨fun _ => clusterRecords_knowledge hturn, ?_⟩
        intro hnot
        refine absurd (mem_map.mpr ⟨cluster, hcluster, ?_⟩) hnot
        exact turn.id.symm.trans hid'
      · obtain ⟨member, id, hid, hfound, rfl⟩ := turn.members r' hmem
        have hsame := (findById_mem hfound).2
        have hmember : r = member := by
          have hfound' : findById inputs.current r.id = some member := by
            rw [← hid', show (rolledUpUnder parent.id member).id = member.id from rfl, hsame]
            exact hfound
          exact Option.some.inj (hr.symm.trans hfound')
        have hsupplied := h.members cluster hcluster id hid
        refine ⟨fun hretained => absurd hretained (hnotRetained ?_), fun _ => ?_⟩
        · rw [hmember, hsame]
          exact hsupplied
        · rw [hmember]
          rfl
    · obtain ⟨hcurrent, -, hkeep⟩ := mem_oldParents.mp hparent
      rcases releasedRecords_cases hrecords hmem with ⟨hid, hknowledge⟩ |
        ⟨member, hlisted, hfound, hid, hknowledge⟩
      · have hsame : r = oldParent := by
          refine inj_on_of_nodup_map h.current_ids (findById_mem hr).1 hcurrent ?_
          exact hid'.symm.trans hid
        rw [← hsame] at hknowledge hkeep
        exact ⟨fun hretained => absurd hretained hkeep, fun _ => hknowledge⟩
      · have hsame : r = member := by
          rw [← hid, hid'] at hfound
          exact Option.some.inj (hr.symm.trans hfound)
        rw [← hsame] at hknowledge hlisted
        have hsupplied := (releasedRecords_turn hrecords).supplied r.id hlisted
        exact ⟨fun hretained => absurd hretained (hnotRetained hsupplied), fun _ => hknowledge⟩
  · refine ⟨r, ?_, ?_, fun _ => rfl⟩
    · rw [written_get_of_notMem hall, h.current_get, hr]
    · -- the parent of a cluster is written
      intro hretained
      obtain ⟨cluster, hcluster, hid⟩ := mem_map.mp hretained
      obtain ⟨parent, members, hturn, hwritten⟩ := hturns.clusters cluster hcluster
      refine absurd (mem_map.mpr ⟨parent, hwritten parent mem_cons_self, ?_⟩) hall
      exact (clusterRecords_turn hturn).id.trans hid

end clusters

/-! ## The call -/

/-- The updates of an answer, in the order they are stored. -/
def answerUpdates (digests : Digests) (context : ApplyContext) (workspacePath : String)
    (model : ModelOutput) (records : Records) : List Recommendation :=
  model.enrichments.filterMap (enrichmentUpdate context (listing records)) ++
    (proposalProgress digests context workspacePath (listing records) model.proposals).records

section call
variable {digests : Digests} {context : ApplyContext} {model : ModelOutput} {records next : Records}
  {disposition : ApplyDisposition}

variable {enrichment : ModelEnrichment}

theorem applied (h : applyModelOutputParsed digests context model records =
      (next, some disposition)) :
    refusedOutput context model = false ∧ Graph.Ok digests (values records) ∧
      ∃ workspace counts, applyUpdates digests context workspace model.rollups
        (answerUpdates digests context workspace.path model records) counts records =
          (next, some disposition) := by
  unfold applyModelOutputParsed at h
  split at h
  · cases h
  · rename_i hchecks
    split at h
    · cases h
    · rename_i workspace hworkspace
      split at h
      · cases h
      · rename_i hstore
        simp only [Bool.or_eq_true, not_or, Bool.not_eq_true, Bool.not_eq_false'] at hchecks hstore
        refine ⟨hchecks.1.1, ?_, workspace, _, h⟩
        have hok := hstore.2
        cases hvalid : readRecords digests records with
        | error e =>
          rw [hvalid] at hok
          cases hok
        | ok u => exact (readRecords_ok.mp hvalid).2

theorem known_pages (h : refusedOutput context model = false)
    (henrichment : enrichment ∈ model.enrichments) :
    ∀ pageId ∈ enrichment.knowledgePageIds, (context.page pageId).isSome = true := by
  intro pageId hpage
  simp only [refusedOutput, Bool.or_eq_false_iff, any_eq_false] at h
  have hone := h.1.1.2 enrichment henrichment
  simp only [refusedEnrichment, Bool.or_eq_true, not_or, any_eq_true, not_exists, not_and] at hone
  have hsome := hone.2 pageId hpage
  rw [Bool.not_eq_true, Option.isNone_eq_false_iff] at hsome
  exact hsome

theorem lastFor_exists (h : enrichment ∈ model.enrichments) :
    ∃ last ∈ model.enrichments, lastFor model.enrichments enrichment.dedupeKey = some last := by
  have hsome : (lastFor model.enrichments enrichment.dedupeKey).isSome = true := by
    rw [lastFor, List.find?_isSome]
    exact ⟨enrichment, mem_reverse.mpr h, beq_self_eq_true _⟩
  obtain ⟨last, hlast⟩ := Option.isSome_iff_exists.mp hsome
  exact ⟨last, mem_reverse.mp (mem_of_find?_eq_some hlast), hlast⟩

variable {dedupeKey workspacePath : String} {last : ModelEnrichment}

theorem written_updates (hkeyed : Keyed records) (hfresh : FreshIds digests records)
    (hr : enrichedRecommendation (listing records) dedupeKey = some r)
    (hlast : lastFor model.enrichments dedupeKey = some last) (map : Records) :
    (written map (answerUpdates digests context workspacePath model records))[r.id]? =
      some (enrichedBy context last r) := by
  rw [answerUpdates, written_append, written_get_of_notMem, written_enrichments hkeyed hr, hlast]
  · rfl
  · intro hid
    obtain ⟨update, hupdate, hsame⟩ := mem_map.mp hid
    exact proposal_ids hfresh hupdate (enrichedRecommendation_some hr).1 hsame.symm

theorem last_update_mem (hr : enrichedRecommendation (listing records) dedupeKey = some r)
    (hlast : lastFor model.enrichments dedupeKey = some last) :
    enrichedBy context last r ∈ answerUpdates digests context workspacePath model records := by
  have hkey := List.find?_some hlast
  rw [beq_iff_eq] at hkey
  refine mem_append_left _ (mem_filterMap.mpr
    ⟨last, mem_reverse.mp (mem_of_find?_eq_some hlast), ?_⟩)
  rw [enrichmentUpdate_eq, hkey, hr]
  rfl

theorem updates_enrich (hkeyed : Keyed records) (hfresh : FreshIds digests records)
    (hupdate : update ∈ answerUpdates digests context workspacePath model records)
    (hr : r ∈ listing records) (hid : r.id = update.id) :
    ∃ enrichment, update = enrichedBy context enrichment r := by
  rcases mem_append.mp hupdate with hupdate | hupdate
  · obtain ⟨enrichment, -, hupdate⟩ := mem_filterMap.mp hupdate
    rw [enrichmentUpdate_eq] at hupdate
    obtain ⟨r', hr', rfl⟩ := Option.map_eq_some_iff.mp hupdate
    refine ⟨enrichment, congrArg _ ?_⟩
    exact inj_on_of_nodup_map (listing_ids_nodup hkeyed) (enrichedRecommendation_some hr').1
      hr hid.symm
  · exact absurd hid (proposal_ids hfresh hupdate hr)

theorem clustered_knowledge (hkeyed : Keyed records) (hfresh : FreshIds digests records)
    (hvalid : Graph.Ok digests (values records)) {workspace : RollupWorkspace}
    {clusters : List RollupCluster}
    (hmembers : ∀ cluster ∈ clusters, ∀ id ∈ cluster.memberRecommendationIds,
      id ∈ request.snapshots.map (·.recommendationId))
    (hr : enrichedRecommendation (listing records) dedupeKey = some r)
    (hlast : lastFor model.enrichments dedupeKey = some last)
    (h : applyRollupClusters digests context workspace request clusters
      (answerUpdates digests context workspace.path model records) records = some next) :
    ∃ r', next[r.id]? = some r' ∧
      (r.id ∈ clusters.map (fun c => stableRollupId digests c.memberRecommendationIds) →
        r'.knowledgeEvidence = []) ∧
      (r.id ∉ clusters.map (fun c => stableRollupId digests c.memberRecommendationIds) →
        r'.knowledgeEvidence = (enrichedBy context last r).knowledgeEvidence) := by
  unfold applyRollupClusters at h
  split at h
  · cases h
  · rename_i hmatch
    rw [Bool.not_eq_true', Bool.not_eq_false, rollupInputsMatch, Bool.and_eq_true,
      Bool.and_eq_true] at hmatch
    obtain ⟨graph, hgraph, h⟩ := Option.bind_eq_some_iff.mp h
    have hlisting : ∀ r', r' ∈ values records ↔ r' ∈ listing records :=
      fun _ => mem_sortBy.symm
    have hsetting : Setting digests (listing records)
        (answerUpdates digests context workspace.path model records)
        (clusterInputs context workspace request clusters
          (answerUpdates digests context workspace.path model records) records) := by
      refine ⟨hvalid.congr (listing_ids_nodup hkeyed) hlisting, ?_, rfl, ?_, hmembers⟩
      · intro snapshot hsnapshot
        exact snapshotMatches_matched (all_eq_true.mp hmatch.2 snapshot hsnapshot)
      · intro update hupdate r' hr' hid
        obtain ⟨enrichment, rfl⟩ := updates_enrich hkeyed hfresh hupdate hr' hid
        exact enriches_enrichedBy enrichment r'
    have hcurrent : findById (clusterInputs context workspace request clusters
        (answerUpdates digests context workspace.path model records) records).current
        (enrichedBy context last r).id = some (enrichedBy context last r) := by
      rw [hsetting.current, findById_projected]
      exact written_updates hkeyed hfresh hr hlast _
    obtain ⟨r', hget, hknowledge⟩ := hsetting.knowledge hgraph hcurrent
    refine ⟨r', ?_, hknowledge⟩
    split at h
    · -- the enrichment's own record is expected
      rename_i hempty
      have hkey := (rollupGraph_turns hgraph).2 _ (last_update_mem hr hlast)
      rw [Std.ExtTreeMap.isEmpty_iff.mp hempty, keys_empty] at hkey
      cases hkey
    · cases happly : applyRecords digests records (expectedRecords records graph.expected.keys)
          (values graph.working) with
      | error e =>
        rw [happly] at h
        cases h
      | ok stored =>
        rw [happly] at h
        cases h
        obtain ⟨-, -, -, -, -, -, hnext⟩ := applyRecords_ok.mp happly
        have hworking : Keyed graph.working := by
          obtain ⟨⟨all, hturns⟩, -⟩ := rollupGraph_turns hgraph
          rw [hturns.wrote.working]
          exact keyed_written (keyed_recordsById _) all
        rw [hnext, recordsById_values hworking]
        exact hget

end call

/-! ## The clusters of an answer -/

section parsed
variable {context : ApplyContext} {model : ModelOutput}

variable {clusters : List RollupCluster}

theorem resolved_members {given : List RollupCluster}
    (h : given.mapM (fun cluster => (context.resolveTargets cluster.proposedChange).map (fun change =>
      { cluster with proposedChange := change })) = .ok clusters) :
    clusters.map (·.memberRecommendationIds) = given.map (·.memberRecommendationIds) := by
  induction given generalizing clusters with
  | nil =>
    cases h
    rfl
  | cons cluster rest ih =>
    rw [mapM_cons] at h
    obtain ⟨resolved, hresolved, h⟩ := bind_eq_ok.mp h
    obtain ⟨others, hothers, h⟩ := bind_eq_ok.mp h
    cases h
    cases hchange : context.resolveTargets cluster.proposedChange with
    | error e =>
      rw [hchange] at hresolved
      cases hresolved
    | ok change =>
      rw [hchange] at hresolved
      cases hresolved
      rw [map_cons, map_cons, ih hothers]

theorem parsed_members {outputLength : Nat}
    (hrequest : context.rollupRequest = some request)
    (hparsed : parseProviderResponse context.codec outputLength raw
      (context.rollupRequest.map (·.snapshots)) = .ok model)
    (hresolved : resolvedRollups context model.rollups = .ok clusters) :
    ∀ cluster ∈ clusters, ∀ id ∈ cluster.memberRecommendationIds,
      id ∈ request.snapshots.map (·.recommendationId) := by
  have hsection : ∃ rollups, model.rollups =
      rollupSection context.codec request.snapshots rollups := by
    unfold parseProviderResponse at hparsed
    rw [hrequest] at hparsed
    obtain ⟨-, hparsed⟩ := seq_eq_ok.mp hparsed
    cases raw with
    | none => cases hparsed
    | some raw =>
      cases hparsed
      exact ⟨raw.rollups, rfl⟩
  obtain ⟨rollups, hsection⟩ := hsection
  rw [hsection] at hresolved
  unfold rollupSection at hresolved
  split at hresolved
  · cases hresolved
  · split at hresolved
    · cases hresolved
    · split at hresolved
      · rename_i modelClusters _ valid hvalid
        have hsound := (validateRollupClusters_ok.mp hvalid).1.sound
        rw [← (validateRollupClusters_ok.mp hvalid).2] at hsound
        have hsame := resolved_members hresolved
        intro cluster hcluster id hid
        have hmem : cluster.memberRecommendationIds ∈ valid.map (·.memberRecommendationIds) := by
          rw [← hsame]
          exact mem_map_of_mem hcluster
        obtain ⟨original, horiginal, heq⟩ := mem_map.mp hmem
        obtain ⟨snapshot, hsnapshot, hid', -⟩ :=
          hsound.supplied original horiginal id (heq ▸ hid)
        exact mem_map.mpr ⟨snapshot, hsnapshot, hid'⟩
      · cases hresolved

end parsed

/-! ## Which pages stay -/

section stays
variable {digests : Digests} {context : ApplyContext} {model : ModelOutput} {records next : Records}
  {disposition : ApplyDisposition} {enrichment : ModelEnrichment} {page : KnowledgePage}
  {r : Recommendation}

theorem hasPage_last (hrefused : refusedOutput context model = false)
    (hcited : Cited context model records enrichment page r) {last : ModelEnrichment}
    (hlast : lastFor model.enrichments enrichment.dedupeKey = some last) :
    (enrichedBy context last r).knowledgeEvidence.any (cites page) = true ↔
      HasPage page r ∨ CitedLast model enrichment.dedupeKey page := by
  obtain ⟨pageId, -, hpage⟩ := hcited.cited
  have hself : context.page page.id = some page := by
    rw [page_id hpage]
    exact hpage
  have hmem : last ∈ model.enrichments :=
    mem_reverse.mp (mem_of_find?_eq_some hlast)
  have hfold := foldl_citePage hself (known_pages hrefused hmem) r.knowledgeEvidence
  refine hfold.trans (or_congr_right ?_)
  constructor
  · intro hin
    exact ⟨last, hlast, hin⟩
  · intro hlast'
    obtain ⟨other, hother, hin⟩ := hlast'
    rw [hlast, Option.some.injEq] at hother
    rw [hother]
    exact hin

theorem putEach_accepted {updates : List Recommendation} {counts : ApplyDisposition}
    (h : ((putEach digests updates records).1,
      if (putEach digests updates records).2 then some counts else none) =
        (next, some disposition)) : next = written records updates := by
  rw [Prod.mk.injEq] at h
  have hstored : (putEach digests updates records).2 = true := by
    by_contra hnot
    rw [if_neg hnot] at h
    cases h.2
  exact h.1.symm.trans (putEach_stored hstored)

theorem stored_iff {stored : Recommendation} (h : next[r.id]? = some stored) :
    (∃ r', next[r.id]? = some r' ∧ HasPage page r') ↔ HasPage page stored := by
  rw [h]
  constructor
  · intro hex
    obtain ⟨r', heq, hpage⟩ := hex
    cases heq
    exact hpage
  · intro hpage
    exact ⟨stored, rfl, hpage⟩

theorem page_stays_iff (hkeyed : Keyed records) (hfresh : FreshIds digests records)
    {outputLength : Nat}
    (hparsed : parseProviderResponse context.codec outputLength raw
      (context.rollupRequest.map (·.snapshots)) = .ok model)
    (haccepted : applyModelOutputParsed digests context model records = (next, some disposition))
    (hcited : Cited context model records enrichment page r) :
    (∃ r', next[r.id]? = some r' ∧ HasPage page r') ↔
      PageStays digests context model enrichment page r := by
  obtain ⟨hrefused, hvalid, workspace, counts, happlied⟩ := applied haccepted
  obtain ⟨last, -, hlast⟩ := lastFor_exists hcited.given
  have hlastPage := hasPage_last hrefused hcited hlast
  have hfamily := hcited.family
  have hr : records[r.id]? = some r :=
    (mem_listing hkeyed).mp (enrichedRecommendation_some hfamily).1
  unfold applyUpdates at happlied
  cases hrequest : context.rollupRequest with
  | none =>
    rw [hrequest] at happlied
    have hnext := putEach_accepted happlied
    have hget : next[r.id]? = some (enrichedBy context last r) := by
      rw [hnext]
      exact written_updates hkeyed hfresh hfamily hlast records
    have hplain : context.rollupRequest.isSome ≠ true := by
      rw [hrequest]
      decide
    rw [stored_iff hget]
    refine hlastPage.trans ⟨?_, ?_⟩
    · intro hpage
      refine ⟨hpage.imp_right (fun hcites => ⟨hcites, fun hdegraded => hplain hdegraded.1.1⟩), ?_⟩
      exact fun hparent => hplain hparent.1
    · intro hstays
      exact hstays.cited.imp_right And.left
  | some request =>
    rw [hrequest] at happlied
    have hasked : context.rollupRequest.isSome = true := by
      rw [hrequest]
      rfl
    cases hresolved : resolvedRollups context model.rollups with
    | error code =>
      rw [hresolved] at happlied
      dsimp only at happlied
      have hdegraded : Degraded context model := by
        refine ⟨hasked, ?_⟩
        rw [hresolved]
        rfl
      have hno : ¬ ClusterParentId digests context model r.id := by
        intro hparent
        obtain ⟨-, clusters, hclusters, -⟩ := hparent
        rw [hresolved] at hclusters
        cases hclusters
      split at happlied
      · cases happlied
      · have hnext := putEach_accepted happlied
        have henriched : ∀ update ∈ answerUpdates digests context workspace.path model records,
            update.id = r.id → isRollupRecord update = isRollupRecord r := by
          intro update hupdate hid
          obtain ⟨other, rfl⟩ := updates_enrich hkeyed hfresh hupdate
            (enrichedRecommendation_some hfamily).1 hid.symm
          rfl
        by_cases hrollup : isRollupRecord r = true
        · -- the update is not stored
          have hget : next[r.id]? = some r := by
            rw [hnext, written_filter_drops, hr]
            intro update hupdate hid
            rw [henriched update hupdate hid, hrollup]
            rfl
          rw [stored_iff hget]
          constructor
          · intro hpage
            exact ⟨.inl hpage, hno⟩
          · intro hstays
            rcases hstays.cited with hpage | ⟨-, hnot⟩
            · exact hpage
            · exact absurd ⟨hdegraded, hrollup⟩ hnot
        · have hget : next[r.id]? = some (enrichedBy context last r) := by
            rw [hnext, written_filter_keeps]
            · exact written_updates hkeyed hfresh hfamily hlast records
            · intro update hupdate hid
              rw [henriched update hupdate hid, Bool.eq_false_of_not_eq_true hrollup]
              rfl
          rw [stored_iff hget]
          refine hlastPage.trans ⟨?_, ?_⟩
          · intro hpage
            exact ⟨hpage.imp_right (fun hcites => ⟨hcites, fun h => hrollup h.2⟩), hno⟩
          · intro hstays
            exact hstays.cited.imp_right And.left
    | ok clusters =>
      rw [hresolved] at happlied
      dsimp only at happlied
      have hnot : ¬ Degraded context model := by
        intro hdegraded
        have hok := hdegraded.2
        rw [hresolved] at hok
        cases hok
      have hparent : ClusterParentId digests context model r.id ↔
          r.id ∈ clusters.map (fun c => stableRollupId digests c.memberRecommendationIds) := by
        rw [mem_map]
        constructor
        · intro h
          obtain ⟨-, others, hothers, hcluster⟩ := h
          rw [hresolved, Except.ok.injEq] at hothers
          rw [hothers]
          exact hcluster
        · intro h
          exact ⟨hasked, clusters, hresolved, h⟩
      split at happlied
      · cases happlied
      · rename_i stored happly
        cases happlied
        obtain ⟨r', hget, hlost, hkept⟩ := clustered_knowledge hkeyed hfresh hvalid
          (parsed_members hrequest hparsed hresolved) hfamily hlast happly
        rw [stored_iff hget]
        by_cases hin : r.id ∈ clusters.map (fun c => stableRollupId digests c.memberRecommendationIds)
        · constructor
          · intro hpage
            rw [HasPage, hlost hin] at hpage
            cases hpage
          · intro hstays
            exact absurd (hparent.mpr hin) hstays.single
        · rw [HasPage, hkept hin, hlastPage]
          constructor
          · intro hpage
            exact ⟨hpage.imp_right (fun hcites => ⟨hcites, fun h => hnot h.1⟩),
              fun h => hin (hparent.mp h)⟩
          · intro hstays
            exact hstays.cited.imp_right And.left

end stays

/-- An accepted answer keeps every page it cites exactly when, for each of them, the record had
it already or the last enrichment for the key cites it and is stored, and the record is not the
parent of a cluster of the same answer. -/
theorem enrichments_kept_iff (digests : Digests) (context : ApplyContext) (outputLength : Nat)
    (raw : Option RawModelOutput) (model : ModelOutput) (records next : Records)
    (disposition : ApplyDisposition) (hkeyed : Keyed records) (hfresh : FreshIds digests records)
    (hparsed : parseProviderResponse context.codec outputLength raw
      (context.rollupRequest.map (·.snapshots)) = .ok model)
    (haccepted : applyModelOutputParsed digests context model records = (next, some disposition)) :
    EnrichmentsKept context model records next ↔
      ∀ enrichment page r, Cited context model records enrichment page r →
        PageStays digests context model enrichment page r := by
  constructor
  · intro hkept enrichment page r hcited
    exact (page_stays_iff hkeyed hfresh hparsed haccepted hcited).mp (hkept enrichment page r hcited)
  · intro hstays enrichment page r hcited
    exact (page_stays_iff hkeyed hfresh hparsed haccepted hcited).mpr
      (hstays enrichment page r hcited)

namespace Sample

def knowledgePage (id : String) : KnowledgePage where
  id := id
  title := "Builds"
  status := "established"
  content := "Run builds from one command."
  sha256 := digest

/-- A store with the sample record, two pages, and no rollup request. -/
def enrichmentContext : ApplyContext where
  codec := rollupCodec
  size := fun items => 2 + 300 * items.length
  knowledge := some { version := "2026.1", pages := [knowledgePage "p", knowledgePage "q"] }
  facts := []
  suppliedRecommendations := [record]
  rollupRequest := none
  current := true
  currentStill := true
  workspace := some { path := "w", instanceId := 1 }
  currentFacts := some []
  resolveTargets := .ok
  now := "2026-01-02T00:00:00Z"

def enrichmentRecords : Records := (∅ : Records).insert "a" record

def enrichmentAnswer (enrichments : List ModelEnrichment) : ModelOutput where
  enrichments := enrichments
  proposals := []
  rollups := .notRequested

/-- What serde reads of it. -/
def enrichmentRaw (enrichments : List ModelEnrichment) : RawModelOutput where
  enrichments := enrichments
  proposals := []
  rollups := none

/-- One page, then another, for the same key. -/
def twice : List ModelEnrichment := [⟨"k", ["p"]⟩, ⟨"k", ["q"]⟩]

/-- Both pages at once. -/
def once : List ModelEnrichment := [⟨"k", ["p", "q"]⟩]

end Sample

open Sample

theorem Sample.enrichmentRecords_keyed : Keyed enrichmentRecords := by
  intro id r hget
  rw [enrichmentRecords, get_insert, get_empty] at hget
  split at hget
  · rename_i hid
    cases hget
    exact hid
  · cases hget

theorem Sample.enrichment_listing : listing enrichmentRecords = [record] := by
  rw [listing, values, enrichmentRecords, toList_singleton]
  rfl

theorem Sample.enrichment_fresh :
    FreshIds env.digests enrichmentRecords := by
  intro dedupeKey _ r hr
  rw [enrichment_listing] at hr
  rw [mem_singleton.mp hr, proactiveId]
  intro heq
  have hlength := congrArg String.length heq
  rw [String.length_append] at hlength
  have hlead : "recommendation-".length = 15 := rfl
  have hid : record.id.length = 1 := rfl
  omega

theorem Sample.enrichment_parsed (enrichments : List ModelEnrichment) :
    parseProviderResponse enrichmentContext.codec 80
      (some (enrichmentRaw enrichments))
      (enrichmentContext.rollupRequest.map (·.snapshots)) =
        .ok (enrichmentAnswer enrichments) := rfl

/-- Both pages cited at once stay. -/
theorem pages_cited_once_kept :
    EnrichmentsKept enrichmentContext (enrichmentAnswer once)
      enrichmentRecords
      (applyModelOutputParsed env.digests enrichmentContext
        (enrichmentAnswer once) enrichmentRecords).1 := by
  have haccepted : (applyModelOutputParsed env.digests enrichmentContext
      (enrichmentAnswer once) enrichmentRecords).2 = some ⟨0, 0, none⟩ := by decide +kernel
  refine (enrichments_kept_iff env.digests enrichmentContext 80
    (some (enrichmentRaw once)) (enrichmentAnswer once)
    enrichmentRecords _ ⟨0, 0, none⟩ enrichmentRecords_keyed enrichment_fresh
    (enrichment_parsed once) (Prod.ext rfl haccepted)).mpr ?_
  intro enrichment page r hcited
  have hone : enrichment = ⟨"k", ["p", "q"]⟩ := mem_singleton.mp hcited.given
  obtain ⟨pageId, hpageId, hpage⟩ := hcited.cited
  refine ⟨.inr ⟨⟨⟨"k", ["p", "q"]⟩, ?_, ?_⟩, ?_⟩, ?_⟩
  · rw [hone]
    rfl
  · rw [page_id hpage]
    rw [hone] at hpageId
    exact hpageId
  · intro hdegraded
    cases hdegraded.1.1
  · intro hparent
    cases hparent.1

/-- The first of two enrichments for one key is lost: the answer is accepted, and the record
cites only the page of the second. -/
theorem repeated_key_loses_page :
    (applyModelOutputParsed env.digests enrichmentContext
        (enrichmentAnswer twice) enrichmentRecords).2 =
      some ⟨0, 0, none⟩ ∧
    ¬ EnrichmentsKept enrichmentContext (enrichmentAnswer twice)
      enrichmentRecords
      (applyModelOutputParsed env.digests enrichmentContext
        (enrichmentAnswer twice) enrichmentRecords).1 := by
  refine ⟨by decide +kernel, ?_⟩
  intro hkept
  have hcited : Cited enrichmentContext (enrichmentAnswer twice)
      enrichmentRecords ⟨"k", ["p"]⟩ (knowledgePage "p") record := by
    refine ⟨mem_cons_self, ⟨"p", mem_cons_self, rfl⟩, ?_⟩
    rw [enrichment_listing]
    rfl
  obtain ⟨r', hget, hpage⟩ := hkept _ _ _ hcited
  have hstored : ((applyModelOutputParsed env.digests enrichmentContext
      (enrichmentAnswer twice) enrichmentRecords).1["a"]?).map
        (fun r => r.knowledgeEvidence.any (cites (knowledgePage "p"))) = some false := by
    decide +kernel
  rw [show record.id = "a" from rfl] at hget
  rw [hget, Option.map_some, Option.some.injEq] at hstored
  rw [HasPage, hstored] at hpage
  cases hpage

end Orkworksd.Taskmaster
