import Mathlib.Data.List.Destutter
import Orkworksd.Taskmaster.Lineage

/- When the store takes the graph a refresh hands to it.

   The validator reads six fields of a record (`NodeView`). A refresh rewrites
   records without touching them and adds records that are linked to nothing.
   `Pass` is one refresh and `Smooth` a pass in which every proposal has a place of
   its own. From a valid store whose proposing families keep no rollup parent, and
   with ids for new records that are not in use (`Regular`), the graph of the
   refresh is valid again and is never refused (`Regular.accepted`); a pass that was
   accepted is smooth (`Taken.smooth`). -/
namespace Orkworksd.Taskmaster
open Lib List

/-! ## What the graph validator reads -/

/-- The fields of a record that `validate_graph_records` reads. -/
structure NodeView where
  id : String
  dedupeKey : String
  status : RecommendationStatus
  memberIds : List String
  memberKeys : List String
  rolledUpBy : Option String
  deriving DecidableEq

def Recommendation.view (r : Recommendation) : NodeView where
  id := r.id
  dedupeKey := r.dedupeKey
  status := r.status
  memberIds := r.rollupMemberIds
  memberKeys := r.rollupMemberDedupeKeys
  rolledUpBy := r.rolledUpBy

/-- The record is linked to no other. -/
structure Unlinked (r : Recommendation) : Prop where
  memberIds : r.rollupMemberIds = []
  memberKeys : r.rollupMemberDedupeKeys = []
  rolledUpBy : r.rolledUpBy = none
  status : r.status ≠ .rolledUp

section view
variable {digests : Digests} {look look' : String → Option Recommendation} {r r' : Recommendation}

theorem sameNode_of_view (h : r'.view = r.view) : SameNode r r' := by
  have hstatus : r'.status = r.status := congrArg NodeView.status h
  exact ⟨congrArg NodeView.id h, congrArg NodeView.dedupeKey h, congrArg NodeView.memberIds h,
    congrArg NodeView.memberKeys h, congrArg NodeView.rolledUpBy h, by rw [hstatus],
    by rw [hstatus]; exact fun hactive => hactive⟩

theorem Graph.Node.congr (h : Graph.Node digests look r) (hview : r'.view = r.view)
    (hlook : ∀ (id : String) (x : Recommendation), look id = some x →
      ∃ x', look' id = some x' ∧ x'.view = x.view) : Graph.Node digests look' r' := by
  refine h.rewritten (sameNode_of_view hview) ?_
  intro id x hx
  obtain ⟨x', hx', hview'⟩ := hlook id x hx
  exact ⟨x', hx', sameNode_of_view hview'⟩

theorem Unlinked.node (h : Unlinked r) : Graph.Node digests look r := by
  refine ⟨?_, ?_, ?_, ?_, ?_, ?_, ?_, ?_⟩
  · rw [h.memberIds, h.memberKeys]
  · rw [h.memberIds]
    exact nodup_nil
  · rw [h.memberIds]
    simp
  · intro hne
    exact absurd h.memberIds hne
  · rw [h.memberIds, h.memberKeys]
    rfl
  · rw [h.rolledUpBy]
    simp [h.status]
  · rw [h.memberIds]
    simp
  · intro parentId hp
    rw [h.rolledUpBy] at hp
    cases hp

end view

theorem view_of_unprojected {r r' : Recommendation} (h : unprojected r = unprojected r') :
    r.view = r'.view := by
  have hview : (unprojected r).view = (unprojected r').view := by rw [h]
  exact hview

section graph
variable {digests : Digests} {records next : Records}

theorem findById_values (hkeyed : Keyed records) (id : String) :
    findById (values records) id = records[id]? := by
  apply Option.ext
  intro r
  rw [findById_eq_some_iff (values_ids_nodup hkeyed), mem_values]
  constructor
  · rintro ⟨⟨k, hk⟩, rfl⟩
    rw [hkeyed k r hk]
    exact hk
  · intro h
    exact ⟨⟨id, h⟩, hkeyed id r h⟩

theorem graphOk_iff (hkeyed : Keyed records) :
    Graph.Ok digests (values records) ↔ ∀ (id : String) (r : Recommendation),
      records[id]? = some r → Graph.Node digests (fun id => records[id]?) r := by
  have hlook : findById (values records) = fun id => records[id]? :=
    funext (findById_values hkeyed)
  constructor
  · intro h id r hr
    rw [← hlook]
    exact h.nodes r (mem_values.mpr ⟨id, hr⟩)
  · intro h
    refine ⟨values_ids_nodup hkeyed, ?_⟩
    intro r hr
    obtain ⟨id, hid⟩ := mem_values.mp hr
    rw [hlook]
    exact h id r hid

theorem Graph.Ok.rewrite (hkeyed : Keyed records) (hkeyed' : Keyed next)
    (hok : Graph.Ok digests (values records))
    (hold : ∀ (id : String) (r : Recommendation), records[id]? = some r →
      ∃ r', next[id]? = some r' ∧ r'.view = r.view)
    (hnew : ∀ (id : String) (r' : Recommendation), records[id]? = none →
      next[id]? = some r' → Unlinked r') : Graph.Ok digests (values next) := by
  rw [graphOk_iff hkeyed] at hok
  rw [graphOk_iff hkeyed']
  intro id r' hr'
  cases hr : records[id]? with
  | none => exact (hnew id r' hr hr').node
  | some r =>
    obtain ⟨x, hx, hview⟩ := hold id r hr
    rw [hr', Option.some.injEq] at hx
    rw [hx]
    exact (hok id r hr).congr hview hold

end graph

/-! ## The checks of the store -/

theorem mem_sortedUnique {texts : List String} {a : String} (h : a ∈ sortedUnique texts) :
    a ∈ texts := mem_sortBy.mp ((destutter_sublist _ _).subset h)

section checks
variable {digests : Digests} {records next : Records}

theorem validateEach_ok {l : List Recommendation} :
    validateEach digests l = .ok () ↔ ∀ r ∈ l, validateRecommendation digests r = .ok () := by
  induction l with
  | nil => simp [validateEach]
  | cons r l ih =>
    unfold validateEach
    rw [seq_eq_ok, ih, forall_mem_cons]

/-- Every record passes `validate_recommendation`. -/
def EachValid (digests : Digests) (records : Records) : Prop :=
  ∀ (id : String) (r : Recommendation), records[id]? = some r →
    validateRecommendation digests r = .ok ()

theorem validateEach_values :
    validateEach digests (values records) = .ok () ↔ EachValid digests records := by
  rw [validateEach_ok]
  constructor
  · exact fun h id r hr => h r (mem_values.mpr ⟨id, hr⟩)
  · intro h r hr
    obtain ⟨id, hid⟩ := mem_values.mp hr
    exact h id r hid

theorem verifyRecords_ok {expected : List (String × Option Recommendation)} :
    verifyRecords records expected = .ok () ↔
      (∀ item ∈ expected, validId item.1 = true ∧ records[item.1]? = item.2) ∧
        ∀ id ∈ records.keys, validId id = true := by
  induction expected with
  | nil => simp [verifyRecords, reject_eq_ok]
  | cons item rest ih =>
    obtain ⟨id, expected⟩ := item
    unfold verifyRecords
    rw [forall_mem_cons, and_assoc, ← ih]
    by_cases hvalid : validId id = true
    · by_cases hsame : records[id]? = expected
      · simp [hvalid, hsame]
      · simp [hvalid, hsame]
    · simp [hvalid]

theorem verifyRecords_expected {ids : List String} (hids : ∀ id ∈ ids, validId id = true)
    (hkeys : ∀ id ∈ records.keys, validId id = true) :
    verifyRecords records (expectedRecords records ids) = .ok () := by
  refine verifyRecords_ok.mpr ⟨?_, hkeys⟩
  intro item hitem
  obtain ⟨id, hid, rfl⟩ := mem_map.mp hitem
  exact ⟨hids id (mem_sortedUnique hid), rfl⟩

theorem readRecords_ok : readRecords digests records = .ok () ↔
    EachValid digests records ∧ Graph.Ok digests (values records) := by
  unfold readRecords
  rw [seq_eq_ok, validateEach_values, validateGraphRecords_ok_iff]

theorem size_recordsById_values (hkeyed : Keyed next) :
    (recordsById (values next)).size = (values next).length := by
  rw [recordsById_values hkeyed, values, length_map, Std.ExtTreeMap.length_toList]

end checks

/-! ## What a proposal is in the graph -/

section proposal
variable {digests : Digests} {context : EvaluationContext} {f : Family} {l : Lineage}
  {existing : List Recommendation} {r : Recommendation}

theorem proposal_id_kept (hkept : l.kept = some r) :
    (f.proposal digests context l).id = r.id := by
  simp [Family.proposal, hkept]

theorem proposal_id_new (hkept : l.kept = none) :
    (f.proposal digests context l).id = f.freshId digests l := by
  simp [Family.proposal, Family.freshId, hkept]

/-- A card that is kept keeps its place among the rollups. -/
theorem proposal_links {look : String → Option Recommendation}
    (hstanding : Standing existing f.dedupeKey l) (hkept : l.kept = some r)
    (hnode : Graph.Node digests look r) :
    (f.proposal digests context l).status = r.status ∧
      (f.proposal digests context l).rolledUpBy = r.rolledUpBy := by
  cases hstanding with
  | fresh _ => cases hkept
  | proposed r' _ hs =>
    rw [kept_proposed hs, Option.some.injEq] at hkept
    have hby : r.rolledUpBy = none := by
      have hiff := hnode.rolledUp
      rw [← hkept, hs] at hiff
      rw [← hkept]
      simpa using hiff
    rw [hby, ← hkept, hs]
    exact ⟨rfl, rfl⟩
  | member r' _ ha =>
    rw [kept_member, Option.some.injEq] at hkept
    rw [← hkept, isActiveMember_rolledUp ha]
    exact ⟨rfl, rfl⟩
  | ended r' q _ hs _ _ => rw [kept_ended hs] at hkept; cases hkept
  | executing r' _ hs => simp [Lineage.kept, Option.filter, hs] at hkept

theorem proposal_view {look : String → Option Recommendation}
    (hstanding : Standing existing f.dedupeKey l) (hkept : l.kept = some r)
    (hnode : Graph.Node digests look r) (hmembers : r.rollupMemberIds = []) :
    (f.proposal digests context l).view = r.view := by
  have hkey : r.dedupeKey = f.dedupeKey := (prior_mem (hstanding.kept_prior hkept)).2
  have hkeys : r.rollupMemberDedupeKeys = [] := by
    have hlengths := hnode.lengths
    rw [hmembers, length_nil] at hlengths
    exact length_eq_zero_iff.mp hlengths.symm
  have hid := @proposal_id_kept digests context f l r hkept
  obtain ⟨hstatus, hby⟩ := @proposal_links digests context f l existing r look hstanding hkept hnode
  have hview : (f.proposal digests context l).view =
      ⟨(f.proposal digests context l).id, f.dedupeKey, (f.proposal digests context l).status, [], [],
        (f.proposal digests context l).rolledUpBy⟩ := rfl
  rw [hview, hid, hstatus, hby, ← hkey]
  unfold Recommendation.view
  rw [hmembers, hkeys]

theorem proposal_unlinked (hstanding : Standing existing f.dedupeKey l) (hkept : l.kept = none) :
    Unlinked (f.proposal digests context l) := by
  have hactive : l.active = none := by
    cases hstanding with
    | member r _ _ => rw [kept_member] at hkept; cases hkept
    | _ => rfl
  refine ⟨rfl, rfl, ?_, ?_⟩
  · simp [Family.proposal, hactive]
  · simp [Family.proposal, hactive]

theorem proposal_parent (hstanding : Standing existing f.dedupeKey l) {parentId : String}
    (hby : (f.proposal digests context l).rolledUpBy = some parentId) :
    ∃ r, l.kept = some r ∧ r.rolledUpBy = some parentId ∧ ∃ parent ∈ existing,
      parent.id = parentId ∧ parent.status = .proposed ∧ parent.rollupMemberIds ≠ [] := by
  cases hstanding with
  | member r _ ha =>
    have hr : r.rolledUpBy = some parentId := by simpa [Family.proposal] using hby
    simp only [isActiveMember, hr, Option.any_some, Bool.and_eq_true, any_eq_true, beq_iff_eq] at ha
    obtain ⟨-, parent, hmem, ⟨hid, hstatus⟩, hlists⟩ := ha
    refine ⟨r, kept_member r, hr, parent, hmem, hid, hstatus, ?_⟩
    intro hnil
    rw [hnil] at hlists
    cases hlists
  | _ => simp [Family.proposal] at hby

theorem proposal_valid : validateRecommendation digests (f.proposal digests context l) = .ok () := rfl

theorem proposal_not_final : finalStatus (f.proposal digests context l).status = false := by
  unfold Family.proposal
  cases l.active <;> rfl

end proposal

/-- The family proposes `p` over these records. -/
def Proposes (digests : Digests) (context : EvaluationContext) (records : Records) (f : Family)
    (p : Recommendation) : Prop :=
  evaluateFamily digests context f (lineage (listing records) f.dedupeKey) = some p

section proposes
variable {digests : Digests} {context : EvaluationContext} {records : Records} {f : Family}
  {p : Recommendation}

theorem Proposes.eq (h : Proposes digests context records f p) :
    p = f.proposal digests context (lineage (listing records) f.dedupeKey) :=
  (evaluateFamily_eq_some.mp h).2.2.2.2

theorem Proposes.dedupeKey (h : Proposes digests context records f p) :
    p.dedupeKey = f.dedupeKey := by
  rw [h.eq]
  rfl

end proposes

/-! ## One pass -/

/-- What one refresh starts from. -/
structure Pass where
  digests : Digests
  size : List WorkflowObservationEvidence → Nat
  context : EvaluationContext
  observations : List WorkflowObservation
  records : Records

namespace Pass

section words
variable (P : Pass) (f : Family)

/-- What the family finds in the store. -/
def lineage : Lineage := Taskmaster.lineage (listing P.records) f.dedupeKey

/-- The family is evaluated and proposes. -/
def Due : Prop := f ∈ families P.observations ∧ f.due (P.lineage f) = true

def proposal : Recommendation := f.proposal P.digests P.context (P.lineage f)

def proposals : List Recommendation :=
  evaluateWorkflowImprovements P.digests P.context P.observations (listing P.records)

/-- The records after the loop over the proposals. -/
def put : Records := putProposals P.records P.proposals

/-- `changed_parent_ids`. -/
def parents : List String :=
  sortedUnique ((changedProposals P.records P.proposals).filterMap (·.rolledUpBy))

/-- The graph that is handed to the store. -/
def next : Records :=
  (plannedRefresh P.digests P.size P.context P.observations P.records).next

def result : Except StoreError Records :=
  refreshResult P.digests P.size P.context P.observations P.records

/-- What the refresh leaves. -/
def after : Records :=
  refreshWorkflowRecommendations P.digests P.size P.context P.observations P.records

end words

section plan
variable {P : Pass} {f : Family} {id : String} {r : Recommendation}

theorem mem_proposals {p : Recommendation} :
    p ∈ P.proposals ↔ ∃ f, P.Due f ∧ p = P.proposal f := by
  rw [proposals, mem_evaluate]
  simp only [evaluateFamily_due, ← and_assoc]
  rfl

theorem put_cases (P : Pass) (id : String) :
    (∃ f, P.Due f ∧ (P.proposal f).id = id ∧ P.put[id]? = some (P.proposal f)) ∨
      ((∀ f, P.Due f → (P.proposal f).id ≠ id) ∧ P.put[id]? = P.records[id]?) := by
  by_cases hmem : ∃ p ∈ P.proposals, p.id = id
  · obtain ⟨p, hp, hid, hget⟩ := putProposals_of_mem hmem
    obtain ⟨f, hf, rfl⟩ := mem_proposals.mp hp
    exact .inl ⟨f, hf, hid, hget⟩
  · push Not at hmem
    exact .inr ⟨fun f hf => hmem _ (mem_proposals.mpr ⟨f, hf, rfl⟩), putProposals_of_notMem hmem⟩

theorem mem_parents (h : id ∈ P.parents) : ∃ f, P.Due f ∧
    P.records[(P.proposal f).id]? ≠ some (P.proposal f) ∧ (P.proposal f).rolledUpBy = some id := by
  obtain ⟨p, hp, hby⟩ := mem_filterMap.mp (mem_sortedUnique h)
  obtain ⟨hp, hchanged⟩ := mem_filter.mp hp
  obtain ⟨f, hf, rfl⟩ := mem_proposals.mp hp
  exact ⟨f, hf, by simpa using hchanged, hby⟩

theorem put_keyed (hk : Keyed P.records) : Keyed P.put := hk.putProposals _

theorem next_keyed (hk : Keyed P.records) : Keyed P.next := refreshPlan_keyed hk

theorem next_unprojected (hk : Keyed P.records) (id : String) :
    (P.next[id]?).map unprojected = (P.put[id]?).map unprojected := refreshPlan_unprojected hk id

theorem next_view (hk : Keyed P.records) (id : String) :
    (P.next[id]?).map Recommendation.view = (P.put[id]?).map Recommendation.view := by
  have hview : ∀ x : Option Recommendation,
      (x.map unprojected).map Recommendation.view = x.map Recommendation.view := by
    intro x
    cases x <;> rfl
  rw [← hview, next_unprojected hk, hview]

theorem next_of_notMem (hk : Keyed P.records) (h : id ∉ P.parents) : P.next[id]? = P.put[id]? :=
  refreshParents_of_notMem (put_keyed hk) h

theorem standing (hk : Keyed P.records) (f : Family) :
    Standing (listing P.records) f.dedupeKey (P.lineage f) :=
  lineage_standing (listing_ids_nodup hk) f.dedupeKey

theorem kept_stored (hk : Keyed P.records) (h : (P.lineage f).kept = some r) :
    P.records[r.id]? = some r ∧ r.dedupeKey = f.dedupeKey := by
  obtain ⟨hmem, hkey⟩ := prior_mem ((standing hk f).kept_prior h)
  exact ⟨(mem_listing hk).mp hmem, hkey⟩

theorem Due.eligible (h : P.Due f) : f.eligible = true := by
  have hdue := h.2
  simp only [Family.due, Bool.and_eq_true] at hdue
  exact hdue.1.1.1

theorem kept_of_proposed (hprior : prior (listing P.records) f.dedupeKey = some r)
    (hs : r.status = .proposed) : (P.lineage f).kept = some r := by
  change ((prior (listing P.records) f.dedupeKey).filter _) = some r
  rw [hprior, Option.filter_eq_some_iff]
  simp [hs]

theorem due_of_kept (hk : Keyed P.records) (hf : f ∈ families P.observations)
    (heligible : f.eligible = true) (hkept : (P.lineage f).kept = some r) : P.Due f :=
  ⟨hf, (evaluateFamily_due.mp (@evaluateFamily_kept P.digests P.context f _ _ _ (standing hk f) r
    hkept heligible)).1⟩

theorem parent_stored (hk : Keyed P.records) (h : id ∈ P.parents) :
    ∃ parent, P.records[id]? = some parent ∧ parent.status = .proposed ∧
      parent.rollupMemberIds ≠ [] := by
  obtain ⟨f, -, -, hby⟩ := mem_parents h
  obtain ⟨-, -, -, parent, hmem, rfl, hstatus, hlists⟩ := proposal_parent (standing hk f) hby
  exact ⟨parent, (mem_listing hk).mp hmem, hstatus, hlists⟩

end plan

/-! ## Passes in which every proposal has a place of its own -/

/-- No two new records get the same id. -/
def Distinct (P : Pass) : Prop :=
  ∀ f g, P.Due f → P.Due g → (P.lineage f).kept = none → (P.lineage g).kept = none →
    f.freshId P.digests (P.lineage f) = g.freshId P.digests (P.lineage g) → f = g

/-- The new records get ids that are not in use, and no two the same one. -/
structure Placed (P : Pass) : Prop where
  keyed : Keyed P.records
  graph : Graph.Ok P.digests (values P.records)
  free : ∀ f, P.Due f → (P.lineage f).kept = none → P.records[(P.proposal f).id]? = none
  distinct : P.Distinct

/-- No card that is rewritten is a proposed rollup parent. -/
structure Smooth (P : Pass) : Prop extends Placed P where
  flat : ∀ f r, P.Due f → (P.lineage f).kept = some r → r.status = .proposed →
    r.rollupMemberIds = []

section smooth
variable {P : Pass} {f g : Family} {id : String} {r r' : Recommendation}

theorem Placed.proposal_cases (h : P.Placed) (hf : P.Due f) :
    (∃ r, (P.lineage f).kept = some r ∧ P.records[(P.proposal f).id]? = some r ∧
      r.dedupeKey = f.dedupeKey ∧ (P.proposal f).status = r.status ∧
      (P.proposal f).rolledUpBy = r.rolledUpBy ∧ finalStatus r.status = false) ∨
    ((P.lineage f).kept = none ∧ P.records[(P.proposal f).id]? = none ∧
      Unlinked (P.proposal f)) := by
  cases hkept : (P.lineage f).kept with
  | none => exact .inr ⟨rfl, h.free f hf hkept, proposal_unlinked (standing h.keyed f) hkept⟩
  | some r =>
    obtain ⟨hr, hkey⟩ := kept_stored h.keyed hkept
    have hid : (P.proposal f).id = r.id := proposal_id_kept hkept
    obtain ⟨hstatus, hby⟩ := @proposal_links P.digests P.context f _ _ r _ (standing h.keyed f) hkept
      ((graphOk_iff h.keyed).mp h.graph r.id r hr)
    refine .inl ⟨r, rfl, hid ▸ hr, hkey, hstatus, hby, ?_⟩
    rw [← hstatus]
    exact proposal_not_final

theorem Placed.proposal_inj (h : P.Placed) (hf : P.Due f) (hg : P.Due g)
    (hid : (P.proposal f).id = (P.proposal g).id) : f = g := by
  rcases h.proposal_cases hf with ⟨r, -, hr, hkey, -⟩ | ⟨hkept, hnew, -⟩
  · rcases h.proposal_cases hg with ⟨r', -, hr', hkey', -⟩ | ⟨-, hnew', -⟩
    · rw [hid, hr', Option.some.injEq] at hr
      rw [hr] at hkey'
      exact families_dedupeKey_inj hf.1 hg.1 (hkey.symm.trans hkey')
    · rw [hid, hnew'] at hr
      cases hr
  · rcases h.proposal_cases hg with ⟨r', -, hr', -⟩ | ⟨hkept', -⟩
    · rw [← hid, hnew] at hr'
      cases hr'
    · refine h.distinct f g hf hg hkept hkept' ?_
      rw [← proposal_id_new hkept, ← proposal_id_new hkept']
      exact hid

theorem Placed.put_proposal (h : P.Placed) (hf : P.Due f) :
    P.put[(P.proposal f).id]? = some (P.proposal f) := by
  rcases P.put_cases (P.proposal f).id with ⟨g, hg, hid, hget⟩ | ⟨hnot, -⟩
  · rw [hget, h.proposal_inj hg hf hid]
  · exact absurd rfl (hnot f hf)

theorem Smooth.proposal_notMem (h : P.Smooth) (hf : P.Due f) : (P.proposal f).id ∉ P.parents := by
  intro hid
  obtain ⟨parent, hparent, hstatus, hlists⟩ := parent_stored h.keyed hid
  rcases h.proposal_cases hf with ⟨r, hkept, hr, -⟩ | ⟨-, hnew, -⟩
  · rw [hr, Option.some.injEq] at hparent
    rw [← hparent] at hstatus hlists
    exact hlists (h.flat f r hf hkept hstatus)
  · rw [hnew] at hparent
    cases hparent

theorem Smooth.next_proposal (h : P.Smooth) (hf : P.Due f) :
    P.next[(P.proposal f).id]? = some (P.proposal f) :=
  (next_of_notMem h.keyed (h.proposal_notMem hf)).trans (h.put_proposal hf)

/-- What a pass leaves of a stored record as it is. -/
structure Alike (r r' : Recommendation) : Prop where
  dedupeKey : r'.dedupeKey = r.dedupeKey
  status : r'.status = r.status
  rolledUpBy : r'.rolledUpBy = r.rolledUpBy
  memberIds : r.status = .proposed → r'.rollupMemberIds = r.rollupMemberIds
  final : finalStatus r.status = true → r' = r

theorem Alike.of_view (h : r'.view = r.view) (hfinal : finalStatus r.status = true → r' = r) :
    Alike r r' where
  dedupeKey := congrArg NodeView.dedupeKey h
  status := congrArg NodeView.status h
  rolledUpBy := congrArg NodeView.rolledUpBy h
  memberIds := fun _ => congrArg NodeView.memberIds h
  final := hfinal

theorem Smooth.stored_next (h : P.Smooth) (hr : P.records[id]? = some r) :
    ∃ r', P.next[id]? = some r' ∧ Alike r r' := by
  rcases P.put_cases id with ⟨f, hf, rfl, -⟩ | ⟨-, hput⟩
  · refine ⟨P.proposal f, h.next_proposal hf, ?_⟩
    rcases h.proposal_cases hf with ⟨r', hkept, hr', hkey, hstatus, hby, hopen⟩ | ⟨-, hnew, -⟩
    · rw [hr, Option.some.injEq] at hr'
      subst hr'
      refine ⟨hkey.symm, hstatus, hby, fun hs => (h.flat f r hf hkept hs).symm, fun hfinal => ?_⟩
      rw [hopen] at hfinal
      cases hfinal
    · rw [hr] at hnew
      cases hnew
  · by_cases hid : id ∈ P.parents
    · have hsame := next_unprojected h.keyed id
      rw [hput, hr, Option.map_some, Option.map_eq_some_iff] at hsame
      obtain ⟨r', hr', heq⟩ := hsame
      obtain ⟨parent, hparent, hstatus, -⟩ := parent_stored h.keyed hid
      rw [hr, Option.some.injEq] at hparent
      refine ⟨r', hr', Alike.of_view (view_of_unprojected heq) fun hfinal => ?_⟩
      rw [hparent, hstatus] at hfinal
      cases hfinal
    · exact ⟨r, (next_of_notMem h.keyed hid).trans (hput.trans hr), Alike.of_view rfl (fun _ => rfl)⟩

theorem Smooth.next_new (h : P.Smooth) (hnone : P.records[id]? = none) (hr' : P.next[id]? = some r') :
    ∃ f, P.Due f ∧ (P.lineage f).kept = none ∧ r' = P.proposal f ∧ Unlinked r' := by
  have hid : id ∉ P.parents := by
    intro hid
    obtain ⟨parent, hparent, -⟩ := parent_stored h.keyed hid
    rw [hnone] at hparent
    cases hparent
  rw [next_of_notMem h.keyed hid] at hr'
  rcases P.put_cases id with ⟨f, hf, rfl, hget⟩ | ⟨-, hput⟩
  · rw [hget, Option.some.injEq] at hr'
    rcases h.proposal_cases hf with ⟨r, -, hr, -⟩ | ⟨hkept, -, hunlinked⟩
    · rw [hnone] at hr
      cases hr
    · exact ⟨f, hf, hkept, hr'.symm, hr' ▸ hunlinked⟩
  · rw [hput, hnone] at hr'
    cases hr'

end smooth

/-! ## Passes that were accepted -/

theorem result_cases {P : Pass} {next : Records} (h : P.result = .ok next) :
    readRecords P.digests P.records = .ok () ∧
      (next = P.records ∧ P.next = P.records ∨
        applyRecords P.digests P.records (expectedRecords P.records
          (plannedRefresh P.digests P.size P.context P.observations P.records).changed)
          (values P.next) = .ok next) := by
  obtain ⟨hread, h⟩ := seq_eq_ok.mp h
  refine ⟨hread, ?_⟩
  simp only at h
  split at h
  · rename_i hempty
    cases h
    exact .inl ⟨rfl, (refreshPlan_unchanged hempty).2⟩
  · exact .inr h

/-- What the store made sure of when it took the graph of a pass. -/
structure Taken (P : Pass) : Prop where
  keyed : Keyed P.records
  each : EachValid P.digests P.records
  graph : Graph.Ok P.digests (values P.records)
  nextGraph : Graph.Ok P.digests (values P.next)
  final : ∀ (id : String) (r : Recommendation), P.records[id]? = some r →
    finalStatus r.status = true → P.next[id]? = some r

section taken
variable {P : Pass} {f : Family} {r : Recommendation}

theorem Taken.of_result (hk : Keyed P.records) {next : Records} (h : P.result = .ok next) :
    P.Taken ∧ next = P.next := by
  obtain ⟨hread, hcases⟩ := result_cases h
  obtain ⟨heach, hgraph⟩ := readRecords_ok.mp hread
  rcases hcases with ⟨rfl, hsame⟩ | happly
  · exact ⟨⟨hk, heach, hgraph, hsame.symm ▸ hgraph, fun id r hr _ => hsame.symm ▸ hr⟩, hsame.symm⟩
  · obtain ⟨-, -, -, hnext, hkept, -, rfl⟩ := applyRecords_ok.mp happly
    rw [recordsById_values (next_keyed hk)] at hnext hkept ⊢
    refine ⟨⟨hk, heach, hgraph, validateGraphRecords_ok_iff.mp hnext, fun id r hr hfinal => ?_⟩, rfl⟩
    exact (checkKept_iff.mp hkept (id, r) (TextMap.mem_toList.mpr hr)).2 hfinal

/-- The validator refuses to let a proposed parent lose its members. -/
theorem Taken.flat (h : P.Taken) (hp : P.Placed) (hf : P.Due f)
    (hkept : (P.lineage f).kept = some r) (hs : r.status = .proposed) : r.rollupMemberIds = [] := by
  by_contra hne
  obtain ⟨m, hm⟩ := exists_mem_of_ne_nil _ hne
  obtain ⟨hr, -⟩ := kept_stored h.keyed hkept
  obtain ⟨member, hmember, -, hby⟩ :=
    ((graphOk_iff h.keyed).mp h.graph r.id r hr).owns (by rw [hs]; rfl) m hm
  -- the member still names the card as its parent
  have hput : ∃ x, P.put[m]? = some x ∧ x.rolledUpBy = some r.id := by
    rcases P.put_cases m with ⟨g, hg, rfl, hget⟩ | ⟨-, hget⟩
    · rcases hp.proposal_cases hg with ⟨x, -, hx, -, -, hxby, -⟩ | ⟨-, hnew, -⟩
      · rw [hmember, Option.some.injEq] at hx
        exact ⟨_, hget, by rw [hxby, ← hx, hby]⟩
      · rw [hmember] at hnew
        cases hnew
    · exact ⟨member, hget.trans hmember, hby⟩
  obtain ⟨x, hx, hxby⟩ := hput
  have hnext := next_unprojected h.keyed m
  rw [hx, Option.map_some, Option.map_eq_some_iff] at hnext
  obtain ⟨m', hm', heq⟩ := hnext
  have hby' : m'.rolledUpBy = some r.id :=
    (congrArg NodeView.rolledUpBy (view_of_unprojected heq)).trans hxby
  obtain ⟨parent, hparent, hcount⟩ :=
    ((graphOk_iff (next_keyed h.keyed)).mp h.nextGraph m m' hm').parent r.id hby'
  -- and the card lists nothing any more
  have hput' := hp.put_proposal hf
  rw [proposal, proposal_id_kept hkept] at hput'
  have hsame := next_unprojected h.keyed r.id
  rw [hparent, hput', Option.map_some, Option.map_some, Option.some.injEq] at hsame
  have hnil : parent.rollupMemberIds = [] :=
    congrArg NodeView.memberIds (view_of_unprojected hsame)
  rw [hnil] at hcount
  cases hcount

theorem Taken.smooth (h : P.Taken) (hp : P.Placed) : P.Smooth :=
  ⟨hp, fun _ _ hf hkept hs => h.flat hp hf hkept hs⟩

end taken

/-! ## Passes that are accepted -/

/-- A valid store in which no card that is rewritten lists members, no parent that is
projected carries a packet, and the ids of new records are valid and not in use. -/
structure Regular (P : Pass) : Prop where
  keyed : Keyed P.records
  each : EachValid P.digests P.records
  graph : Graph.Ok P.digests (values P.records)
  ids : ∀ id ∈ P.records.keys, validId id = true
  fresh : ∀ f, P.Due f → (P.lineage f).kept = none →
    validId (f.freshId P.digests (P.lineage f)) = true ∧
      P.records[f.freshId P.digests (P.lineage f)]? = none
  distinct : P.Distinct
  flat : ∀ f r, P.Due f → (P.lineage f).kept = some r → r.rollupMemberIds = []
  parentPacket : ∀ f r (id : String) (parent : Recommendation), P.Due f →
    (P.lineage f).kept = some r → r.rolledUpBy = some id → P.records[id]? = some parent →
    parent.completionPacket = none

section regular
variable {P : Pass} {id : String} {r : Recommendation}

theorem Regular.smooth (h : P.Regular) : P.Smooth := by
  refine ⟨⟨h.keyed, h.graph, fun f hf hkept => ?_, h.distinct⟩,
    fun f r hf hkept _ => h.flat f r hf hkept⟩
  rw [proposal, proposal_id_new hkept]
  exact (h.fresh f hf hkept).2

theorem Regular.stored_view (h : P.Regular) (hr : P.records[id]? = some r) :
    ∃ r', P.next[id]? = some r' ∧ r'.view = r.view := by
  have hput : (P.put[id]?).map Recommendation.view = some r.view := by
    rcases P.put_cases id with ⟨f, hf, rfl, hget⟩ | ⟨-, hget⟩
    · rcases h.smooth.proposal_cases hf with ⟨x, hkept, hx, -⟩ | ⟨-, hnew, -⟩
      · rw [hr, Option.some.injEq] at hx
        subst hx
        rw [hget, Option.map_some]
        exact congrArg some (proposal_view (standing h.keyed f) hkept
          ((graphOk_iff h.keyed).mp h.graph _ r hr) (h.flat f r hf hkept))
      · rw [hr] at hnew
        cases hnew
    · rw [hget, hr, Option.map_some]
  rw [← next_view h.keyed, Option.map_eq_some_iff] at hput
  exact hput

theorem Regular.next_graph (h : P.Regular) : Graph.Ok P.digests (values P.next) := by
  refine h.graph.rewrite h.keyed (next_keyed h.keyed) (fun id r hr => h.stored_view hr) ?_
  intro id r' hr hr'
  obtain ⟨-, -, -, -, hunlinked⟩ := h.smooth.next_new hr hr'
  exact hunlinked

theorem validateRecommendation_unprojected {digests : Digests} {r' : Recommendation}
    (h : unprojected r' = unprojected r) (hpacket : r.completionPacket = none)
    (hvalid : validateRecommendation digests r = .ok ()) :
    validateRecommendation digests r' = .ok () := by
  have hassessment : r'.assessment = r.assessment := by
    have hfield : (unprojected r').assessment = (unprojected r).assessment := by rw [h]
    exact hfield
  have hpacket' : r'.completionPacket = none := by
    have hfield : (unprojected r').completionPacket = (unprojected r).completionPacket := by rw [h]
    exact hfield.trans hpacket
  unfold validateRecommendation at hvalid ⊢
  rw [hassessment, hpacket']
  rw [hpacket] at hvalid
  exact hvalid

theorem Regular.next_valid (h : P.Regular) (hr : P.next[id]? = some r) :
    validateRecommendation P.digests r = .ok () := by
  by_cases hid : id ∈ P.parents
  · obtain ⟨parent, hparent, -⟩ := parent_stored h.keyed hid
    obtain ⟨f, hf, -, hby⟩ := mem_parents hid
    obtain ⟨k, hkept, hkby, -⟩ := proposal_parent (standing h.keyed f) hby
    have hsame := next_unprojected h.keyed id
    rcases P.put_cases id with ⟨g, hg, rfl, -⟩ | ⟨-, hget⟩
    · exact absurd hid (h.smooth.proposal_notMem hg)
    · rw [hget, hr, hparent, Option.map_some, Option.map_some, Option.some.injEq] at hsame
      exact validateRecommendation_unprojected hsame
        (h.parentPacket f k id parent hf hkept hkby hparent) (h.each id parent hparent)
  · rw [next_of_notMem h.keyed hid] at hr
    rcases P.put_cases id with ⟨g, hg, rfl, hget⟩ | ⟨-, hget⟩
    · rw [hget, Option.some.injEq] at hr
      rw [← hr]
      exact proposal_valid
    · exact h.each id r (hget ▸ hr)

theorem mem_changed (hk : Keyed P.records)
    (hid : id ∈ (plannedRefresh P.digests P.size P.context P.observations P.records).changed) :
    (∃ f, P.Due f ∧ (P.proposal f).id = id) ∨ id ∈ P.parents := by
  refine (mem_refreshParents_changed (put_keyed hk) hid).imp_left fun hmem => ?_
  obtain ⟨p, hp, rfl⟩ := mem_map.mp hmem
  obtain ⟨f, hf, rfl⟩ := mem_proposals.mp (mem_filter.mp hp).1
  exact ⟨f, hf, rfl⟩

/-- A smooth pass over a store that can be read is accepted when its new ids are valid and
its graph is. -/
theorem Smooth.accepted (h : P.Smooth) (hread : readRecords P.digests P.records = .ok ())
    (hids : ∀ id ∈ P.records.keys, validId id = true)
    (hfresh : ∀ f, P.Due f → (P.lineage f).kept = none → validId (P.proposal f).id = true)
    (hnext : Graph.Ok P.digests (values P.next))
    (heach : EachValid P.digests P.next) : P.result = .ok P.next := by
  unfold result refreshResult
  refine seq_eq_ok.mpr ⟨hread, ?_⟩
  simp only
  split
  · rename_i hempty
    exact congrArg Except.ok (refreshPlan_unchanged hempty).2.symm
  · have hkeyed : Keyed (plannedRefresh P.digests P.size P.context P.observations P.records).next :=
      next_keyed h.keyed
    refine applyRecords_ok.mpr ⟨hread, verifyRecords_expected (fun id hid => ?_) hids,
      size_recordsById_values hkeyed, ?_⟩
    · rcases mem_changed h.keyed hid with ⟨f, hf, rfl⟩ | hparent
      · rcases h.proposal_cases hf with ⟨r, -, hr, -⟩ | ⟨hkept, -, -⟩
        · exact hids _ (TextMap.mem_keys.mpr ⟨r, hr⟩)
        · exact hfresh f hf hkept
      · obtain ⟨parent, hstored, -⟩ := parent_stored h.keyed hparent
        exact hids id (TextMap.mem_keys.mpr ⟨parent, hstored⟩)
    · rw [recordsById_values hkeyed]
      refine ⟨validateGraphRecords_ok_iff.mpr hnext, checkKept_iff.mpr ?_,
        validateEach_values.mpr heach, rfl⟩
      intro item hitem
      obtain ⟨r', hr', halike⟩ := h.stored_next (TextMap.mem_toList.mp hitem)
      exact ⟨⟨r', hr'⟩, fun hf => halike.final hf ▸ hr'⟩

theorem Regular.accepted (h : P.Regular) : P.result = .ok P.next := by
  refine h.smooth.accepted (readRecords_ok.mpr ⟨h.each, h.graph⟩) h.ids
    (fun f hf hkept => ?_) h.next_graph (fun id r hr => h.next_valid hr)
  rw [proposal, proposal_id_new hkept]
  exact (h.fresh f hf hkept).1

theorem after_of_result {next : Records} (h : P.result = .ok next) : P.after = next := by
  unfold after refreshWorkflowRecommendations
  rw [result] at h
  rw [h]
  rfl

theorem after_of_error {e : StoreError} (h : P.result = .error e) : P.after = P.records := by
  unfold after refreshWorkflowRecommendations
  rw [result] at h
  rw [h]
  rfl

end regular

end Pass

end Orkworksd.Taskmaster
