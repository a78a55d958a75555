import Orkworksd.Taskmaster.Refresh

/- What the evaluator and the refresh do with a family, branch by branch.

   `lineage_cases` says what a family can find in a store whose ids are distinct:
   nothing, a proposed record or an active rollup member (both kept), a record
   that is succeeded, or one that is being executed. `evaluateFamily_eq_some` and
   the lemmas on `refreshPlan` reduce what a refresh stores to the families'
   proposals. -/
namespace Orkworksd.Taskmaster
open Lib List TextMap

variable {r : Recommendation} {existing : List Recommendation}

variable {records : List Recommendation} {f : Family}

/-! ## Sorting -/

section sorting
variable {α : Type} {before : α → α → Bool} {items : List α}

theorem mem_sortBy {a : α} : a ∈ sortBy before items ↔ a ∈ items := mem_insertionSort _

theorem sortBy_perm : (sortBy before items).Perm items := perm_insertionSort _ _

theorem pairwise_sortBy (htotal : ∀ a b, before a b = true ∨ before b a = true)
    (htrans : ∀ a b c, before a b = true → before b c = true → before a c = true) :
    (sortBy before items).Pairwise (fun a b => before a b = true) := by
  have : Std.Total (fun a b => before a b = true) := ⟨htotal⟩
  have : IsTrans α (fun a b => before a b = true) := ⟨htrans⟩
  exact pairwise_insertionSort _ _

theorem sortBy_congr {items' : List α} (hperm : items.Perm items')
    (htotal : ∀ a b, before a b = true ∨ before b a = true)
    (htrans : ∀ a b c, before a b = true → before b c = true → before a c = true)
    (hanti : ∀ a ∈ items, ∀ b ∈ items, before a b = true → before b a = true → a = b) :
    sortBy before items = sortBy before items' := by
  refine List.Perm.eq_of_pairwise ?_ (pairwise_sortBy htotal htrans)
    (pairwise_sortBy htotal htrans) ((sortBy_perm.trans hperm).trans sortBy_perm.symm)
  intro a b ha hb
  exact hanti a (mem_sortBy.mp ha) b (hperm.mem_iff.mpr (mem_sortBy.mp hb))

end sorting

/-! ## Families -/

variable {observations : List WorkflowObservation}

theorem mem_families (h : f ∈ families observations) :
    f = family observations f.fingerprint := by
  obtain ⟨fingerprint, -, rfl⟩ := mem_map.mp h
  rfl

theorem families_fingerprint_nodup (observations : List WorkflowObservation) :
    ((families observations).map (·.fingerprint)).Nodup := by
  have hmap : (families observations).map (·.fingerprint) =
      ((observations.filter observationQualifies).map (·.fingerprint)).dedup := by
    rw [families, map_map]
    exact map_id _
  rw [hmap]
  exact nodup_dedup _

/-- The names of the surfaces have no colon, so a dedupe key tells where the
fingerprint starts. -/
theorem surfaceName_colon_inj {s s' : TargetSurface} {f f' : List Char}
    (h : (targetSurfaceName s).toList ++ ':' :: f = (targetSurfaceName s').toList ++ ':' :: f') :
    f = f' := by
  have hno : ∀ s, ':' ∉ (targetSurfaceName s).toList := by
    intro s
    cases s <;> decide
  have hsplit : ∀ (a b f f' : List Char), ':' ∉ a → ':' ∉ b →
      a ++ ':' :: f = b ++ ':' :: f' → f = f' := by
    intro a
    induction a with
    | nil =>
      intro b f f' _ hb heq
      cases b with
      | nil => exact (List.cons.inj heq).2
      | cons c b =>
        obtain ⟨rfl, -⟩ := List.cons.inj heq
        exact absurd mem_cons_self hb
    | cons c a ih =>
      intro b f f' ha hb heq
      cases b with
      | nil =>
        obtain ⟨rfl, -⟩ := List.cons.inj heq
        exact absurd mem_cons_self ha
      | cons c' b =>
        obtain ⟨-, heq⟩ := List.cons.inj heq
        exact ih b f f' (fun hm => ha (mem_cons_of_mem _ hm))
          (fun hm => hb (mem_cons_of_mem _ hm)) heq
  exact hsplit _ _ f f' (hno s) (hno s') h

variable {f' : Family}

theorem dedupeKey_fingerprint (h : f.dedupeKey = f'.dedupeKey) :
    f.fingerprint = f'.fingerprint := by
  unfold Family.dedupeKey at h
  have hlist := congrArg String.toList h
  simp only [String.toList_append, append_assoc] at hlist
  rw [append_cancel_left_eq] at hlist
  have hcolon : ":".toList = [':'] := by decide
  rw [hcolon] at hlist
  exact String.toList_inj.mp (surfaceName_colon_inj hlist)

theorem families_dedupeKey_inj (h : f ∈ families observations) (h' : f' ∈ families observations)
    (hkey : f.dedupeKey = f'.dedupeKey) : f = f' := by
  rw [mem_families h, mem_families h', dedupeKey_fingerprint hkey]

theorem families_dedupeKey_nodup (observations : List WorkflowObservation) :
    ((families observations).map (·.dedupeKey)).Nodup := by
  refine List.Nodup.map_on ?_ (List.Nodup.of_map _ (families_fingerprint_nodup observations))
  intro f h f' h' hkey
  exact families_dedupeKey_inj h h' hkey

/-! ## The newest record of a family -/

theorem foldl_newest (rest : List Recommendation) (best : Recommendation) :
    let newest := rest.foldl (fun best next =>
      if next.updatedAt < best.updatedAt then best else next) best
    newest ∈ best :: rest ∧ ∀ r ∈ best :: rest, r.updatedAt ≤ newest.updatedAt := by
  induction rest generalizing best with
  | nil => simp
  | cons next rest ih =>
    simp only [foldl_cons]
    by_cases h : next.updatedAt < best.updatedAt
    · rw [if_pos h]
      obtain ⟨hmem, hmax⟩ := ih best
      refine ⟨?_, ?_⟩
      · rcases mem_cons.mp hmem with heq | hmem
        · rw [heq]
          exact mem_cons_self
        · exact mem_cons_of_mem _ (mem_cons_of_mem _ hmem)
      · intro r hr
        rcases mem_cons.mp hr with rfl | hr
        · exact hmax _ mem_cons_self
        · rcases mem_cons.mp hr with rfl | hr
          · exact h.le.trans (hmax _ mem_cons_self)
          · exact hmax r (mem_cons_of_mem _ hr)
    · rw [if_neg h]
      obtain ⟨hmem, hmax⟩ := ih next
      refine ⟨mem_cons_of_mem _ hmem, ?_⟩
      intro r hr
      rcases mem_cons.mp hr with rfl | hr
      · exact (not_lt.mp h).trans (hmax _ mem_cons_self)
      · exact hmax r hr

theorem newestOf_eq_none : newestOf records = none ↔ records = [] := by
  cases records <;> simp [newestOf]

theorem newestOf_mem
    (h : newestOf records = some r) : r ∈ records ∧ ∀ x ∈ records, x.updatedAt ≤ r.updatedAt := by
  cases records with
  | nil => cases h
  | cons best rest =>
    simp only [newestOf, Option.some.injEq] at h
    rw [← h]
    exact foldl_newest rest best

section prior
variable {existing : List Recommendation} {key : String} {r : Recommendation}

theorem prior_mem (h : prior existing key = some r) : r ∈ existing ∧ r.dedupeKey = key := by
  obtain ⟨hmem, -⟩ := newestOf_mem h
  rw [mem_filter, beq_iff_eq] at hmem
  exact hmem

theorem prior_eq_none : prior existing key = none ↔ ∀ x ∈ existing, x.dedupeKey ≠ key := by
  unfold prior
  rw [newestOf_eq_none, filter_eq_nil_iff]
  simp

end prior

/-! ## The branches of a family -/

/-- What a family can find in a store with distinct ids. -/
inductive Standing (existing : List Recommendation) (key : String) : Lineage → Prop where
  | fresh : prior existing key = none → Standing existing key ⟨none, none, none⟩
  | proposed (r : Recommendation) : prior existing key = some r → r.status = .proposed →
      Standing existing key ⟨some r, none, none⟩
  | member (r : Recommendation) : prior existing key = some r →
      isActiveMember existing r = true → Standing existing key ⟨some r, some r, none⟩
  | ended (r q : Recommendation) : prior existing key = some r → r.status ≠ .proposed →
      isActiveMember existing r = false → predecessorOf existing r = some q →
      Standing existing key ⟨some r, none, some q⟩
  | executing (r : Recommendation) : prior existing key = some r → r.status = .executing →
      Standing existing key ⟨some r, none, none⟩

theorem isActiveMember_rolledUp (h : isActiveMember existing r = true) : r.status = .rolledUp := by
  unfold isActiveMember at h
  rw [Bool.and_eq_true, beq_iff_eq] at h
  exact h.1

theorem terminalParent_active (hids : (existing.map (·.id)).Nodup)
    (h : isActiveMember existing r = true) : terminalParent existing r = none := by
  have hstatus := isActiveMember_rolledUp h
  unfold terminalParent
  rw [if_pos (by simp [hstatus])]
  unfold isActiveMember at h
  rw [Bool.and_eq_true, Option.any_eq_true] at h
  obtain ⟨-, parentId, hparent, hany⟩ := h
  rw [hparent, Option.bind_some, List.find?_eq_none]
  intro other hother hfinal
  rw [any_eq_true] at hany
  obtain ⟨parent, hmem, hparent'⟩ := hany
  simp only [Bool.and_eq_true, beq_iff_eq] at hparent' hfinal
  have hsame : other = parent := by
    refine inj_on_of_nodup_map hids hother hmem ?_
    rw [hfinal.1, hparent'.1.1]
  rw [hsame, hparent'.1.2] at hfinal
  exact absurd hfinal.2 (by decide)

section found
variable {existing : List Recommendation} {key : String} {r : Recommendation}

/-- The prior is its own active member, and is filtered out of the predecessors. -/
theorem lineage_member (hids : (existing.map (·.id)).Nodup) (hprior : prior existing key = some r)
    (hactive : isActiveMember existing r = true) :
    lineage existing key = ⟨some r, some r, none⟩ := by
  have hrolled := isActiveMember_rolledUp hactive
  have hpred : predecessorOf existing r = some r := by
    unfold predecessorOf
    rw [terminalParent_active hids hactive]
    simp [hrolled]
  have hmember : activeRollupMember existing (some r) = some r := by
    simp [activeRollupMember, Option.filter, hactive]
  have hnone : terminalPredecessor existing (some r) = none := by
    simp [terminalPredecessor, hpred, hmember, Option.filter]
  rw [lineage, hprior, hmember, hnone]

end found

theorem lineage_standing (hids : (existing.map (·.id)).Nodup)
    (key : String) : Standing existing key (lineage existing key) := by
  cases hprior : prior existing key with
  | none =>
    rw [lineage, hprior]
    exact .fresh hprior
  | some r =>
    by_cases hactive : isActiveMember existing r = true
    · rw [lineage_member hids hprior hactive]
      exact .member r hprior hactive
    · rw [Bool.not_eq_true] at hactive
      rw [lineage, hprior]
      have hmember : activeRollupMember existing (some r) = none := by
        simp [activeRollupMember, Option.filter, hactive]
      have hpred : terminalPredecessor existing (some r) = predecessorOf existing r := by
        rw [terminalPredecessor, hmember, Option.bind_some]
        cases predecessorOf existing r <;> rfl
      rw [hmember, hpred]
      cases hq : predecessorOf existing r with
      | some q =>
        refine .ended r q hprior ?_ hactive hq
        intro hstatus
        simp [predecessorOf, terminalParent, hstatus, finalStatus] at hq
      | none =>
        have hstatus : r.status = .proposed ∨ r.status = .executing := by
          unfold predecessorOf at hq
          cases hparent : terminalParent existing r with
          | some parent => simp [hparent] at hq
          | none =>
            simp only [hparent] at hq
            cases hs : r.status <;> simp [hs, finalStatus] at hq ⊢
        rcases hstatus with hstatus | hstatus
        · exact .proposed r hprior hstatus
        · exact .executing r hprior hstatus

namespace Standing

variable {existing : List Recommendation} {key : String} {l : Lineage}

theorem prior_eq (h : Standing existing key l) : l.prior = Taskmaster.prior existing key := by
  cases h <;> simp_all

theorem kept_prior (h : Standing existing key l) (hk : l.kept = some r) :
    Taskmaster.prior existing key = some r := by
  unfold Lineage.kept at hk
  rw [Option.filter_eq_some_iff] at hk
  rw [← h.prior_eq]
  exact hk.1

end Standing

theorem kept_proposed (h : r.status = .proposed) :
    (⟨some r, none, none⟩ : Lineage).kept = some r := by
  simp [Lineage.kept, Option.filter, h]

theorem kept_member (r : Recommendation) : (⟨some r, some r, none⟩ : Lineage).kept = some r := by
  simp [Lineage.kept, Option.filter]

theorem kept_ended {q : Recommendation} (h : r.status ≠ .proposed) :
    (⟨some r, none, some q⟩ : Lineage).kept = none := by
  simp [Lineage.kept, Option.filter, h]

section evaluation
variable {digests : Digests} {context : EvaluationContext} {f : Family} {l : Lineage}
  {p : Recommendation}

theorem evaluateFamily_eq_some :
    evaluateFamily digests context f l = some p ↔
      f.eligible = true ∧ l.busy = false ∧ f.nothingNew l = false ∧ f.stillDismissed l = false ∧
        p = f.proposal digests context l := by
  unfold evaluateFamily
  cases f.eligible <;> cases l.busy <;> cases f.nothingNew l <;> cases f.stillDismissed l <;>
    simp [eq_comm]

theorem evaluateFamily_due :
    evaluateFamily digests context f l = some p ↔
      f.due l = true ∧ p = f.proposal digests context l := by
  rw [evaluateFamily_eq_some, Family.due]
  simp [and_assoc]

theorem evaluateFamily_kept {existing : List Recommendation} {key : String}
    (hstanding : Standing existing key l) {r : Recommendation} (hk : l.kept = some r)
    (heligible : f.eligible = true) :
    evaluateFamily digests context f l = some (f.proposal digests context l) := by
  rw [evaluateFamily_eq_some]
  refine ⟨heligible, ?_, ?_, ?_, rfl⟩
  · cases hstanding with
    | fresh _ => rfl
    | proposed r _ hs => simp [Lineage.busy, hs]
    | member r _ _ => simp [Lineage.busy]
    | ended r q _ hs _ _ => rw [kept_ended hs] at hk; cases hk
    | executing r _ hs => simp [Lineage.kept, Option.filter, hs] at hk
  · cases hstanding with
    | ended r q _ hs _ _ => rw [kept_ended hs] at hk; cases hk
    | _ => rfl
  · cases hstanding with
    | fresh _ => rfl
    | proposed r _ hs => simp [Family.stillDismissed, hs]
    | member r _ ha => simp [Family.stillDismissed, isActiveMember_rolledUp ha]
    | ended r q _ hs _ _ => rw [kept_ended hs] at hk; cases hk
    | executing r _ hs => simp [Family.stillDismissed, hs]

theorem mem_evaluate :
    p ∈ evaluateWorkflowImprovements digests context observations existing ↔
      ∃ f ∈ families observations,
        evaluateFamily digests context f (lineage existing f.dedupeKey) = some p := by
  unfold evaluateWorkflowImprovements
  rw [mem_sortBy, mem_filterMap]

theorem proposal_dedupeKey : (f.proposal digests context l).dedupeKey = f.dedupeKey := rfl

end evaluation

/-! ## The records of a store -/

/-- Every record is stored under its id. -/
def Keyed (records : Records) : Prop :=
  ∀ (id : String) (r : Recommendation), records[id]? = some r → r.id = id

section records
variable {records : Records}

theorem mem_values {β : Type} {map : TextMap β} {v : β} : v ∈ values map ↔ ∃ k : String, map[k]? = some v := by
  unfold values
  rw [mem_map]
  constructor
  · rintro ⟨⟨k, v'⟩, hmem, rfl⟩
    exact ⟨k, mem_toList.mp hmem⟩
  · rintro ⟨k, hk⟩
    exact ⟨(k, v), mem_toList.mpr hk, rfl⟩

section
variable (hkeyed : Keyed records)
include hkeyed

theorem values_ids : (values records).map (·.id) = records.keys := by
  rw [← toList_keys, values, map_map]
  refine map_congr_left ?_
  rintro ⟨k, r⟩ hmem
  exact hkeyed k r (mem_toList.mp hmem)

theorem values_ids_nodup : ((values records).map (·.id)).Nodup := by
  rw [values_ids hkeyed]
  exact keys_nodup

theorem mem_listing :
    r ∈ listing records ↔ records[r.id]? = some r := by
  rw [listing, mem_sortBy, mem_values]
  constructor
  · rintro ⟨k, hk⟩
    rw [hkeyed k r hk]
    exact hk
  · intro h
    exact ⟨r.id, h⟩

theorem listing_ids_nodup : ((listing records).map (·.id)).Nodup := by
  refine (List.Perm.nodup_iff ?_).mpr (values_ids_nodup hkeyed)
  exact sortBy_perm.map _

theorem recordsById_values : recordsById (values records) = records := by
  apply TextMap.ext
  intro id
  cases hget : records[id]? with
  | some r =>
    have hid := hkeyed id r hget
    have hmem : r ∈ values records := mem_values.mpr ⟨id, hget⟩
    rw [← hid]
    exact get_foldl_of_mem (f := fun r : Recommendation => r.id)
      (values_ids_nodup hkeyed) hmem
  | none =>
    refine (get_foldl_of_notMem (f := fun r : Recommendation => r.id) ?_).trans
      get_empty
    rw [values_ids hkeyed, TextMap.mem_keys]
    rintro ⟨r, hr⟩
    rw [hget] at hr
    cases hr

end

end records

/-! ## The plan of a refresh -/

section plan
variable {records : Records} {proposals : List Recommendation}
  {size : List WorkflowObservationEvidence → Nat} {now : String}

variable {id : String}

variable {parentIds : List String}

theorem putProposals_of_notMem (h : ∀ p ∈ proposals, p.id ≠ id) :
    (putProposals records proposals)[id]? = records[id]? := by
  refine get_foldl_of_notMem (f := fun p : Recommendation => p.id) ?_
  intro hmem
  obtain ⟨p, hp, hid⟩ := mem_map.mp hmem
  exact h p hp hid

theorem putProposals_of_mem (h : ∃ p ∈ proposals, p.id = id) :
    ∃ p ∈ proposals, p.id = id ∧ (putProposals records proposals)[id]? = some p := by
  obtain ⟨p, hp, rfl⟩ := h
  cases hget : (putProposals records proposals)[p.id]? with
  | none =>
    refine absurd hget (get_foldl_ne_none (f := fun p : Recommendation => p.id) ?_)
    exact mem_map_of_mem hp
  | some q =>
    by_cases hq : q ∈ proposals ∧ q.id = p.id
    · exact ⟨q, hq.1, hq.2, rfl⟩
    · -- the last proposal with this id was inserted after the stored record
      exfalso
      have hlast : ∀ (l : List Recommendation) (m : Records) (id : String),
          id ∈ l.map (·.id) → ∀ v, (l.foldl (fun next p => next.insert p.id p) m)[id]? = some v →
            v ∈ l ∧ v.id = id := by
        intro l
        induction l with
        | nil => simp
        | cons x l ih =>
          intro m id hid v hv
          by_cases hlater : id ∈ l.map (·.id)
          · obtain ⟨hmem, hvid⟩ := ih _ id hlater v hv
            exact ⟨mem_cons_of_mem _ hmem, hvid⟩
          · rw [map_cons, mem_cons] at hid
            have hx := hid.resolve_right hlater
            rw [foldl_cons, get_foldl_of_notMem (f := fun p : Recommendation => p.id)
              hlater, hx, get_insert_self, Option.some.injEq] at hv
            exact ⟨hv ▸ mem_cons_self, hv ▸ hx.symm⟩
      exact hq (hlast proposals records p.id (mem_map_of_mem hp) q hget)

theorem Keyed.insert (h : Keyed records) (r : Recommendation) : Keyed (records.insert r.id r) := by
  intro id r' hr'
  rw [get_insert] at hr'
  split at hr'
  · rename_i hid
    cases hr'
    exact hid
  · exact h id r' hr'

theorem Keyed.putProposals (h : Keyed records) (proposals : List Recommendation) :
    Keyed (putProposals records proposals) := by
  induction proposals generalizing records with
  | nil => exact h
  | cons p rest ih => exact ih (h.insert p)

/-- The fields a parent's projection does not touch. -/
def unprojected (r : Recommendation) : Recommendation :=
  { r with
    evidence := []
    sourceSessionIds := []
    priority := .low
    confidence := .low
    updatedAt := ""
    workflowImprovement :=
      { r.workflowImprovement with
        observationIds := [], recurrenceCount := 0, affectedSessionIds := [], impact := .low } }

variable {parentId : String} {refreshed : Recommendation}

theorem refreshedParent_eq_some {next : Records} :
    refreshedParent size now next parentId = some refreshed ↔
      ∃ parent members, next[parentId]? = some parent ∧ parent.status = .proposed ∧
        parent.rollupMemberIds.mapM (fun memberId => next[memberId]?) = some members ∧
        refreshed = refreshRollupParentProjection size parent members now := by
  unfold refreshedParent
  cases hparent : next[parentId]? with
  | none => simp [Option.bind]
  | some parent =>
    by_cases hstatus : parent.status = .proposed
    · simp only [Option.bind_eq_bind, Option.bind_some, hstatus, bne_self_eq_false,
        Bool.false_eq_true, if_false, Option.bind_eq_some_iff, Option.some.injEq,
        Option.pure_def]
      constructor
      · rintro ⟨members, hmembers, rfl⟩
        exact ⟨parent, members, rfl, hstatus, hmembers, rfl⟩
      · rintro ⟨parent', members, rfl, -, hmembers, rfl⟩
        exact ⟨members, hmembers, rfl⟩
    · have hne : (parent.status != .proposed) = true := by simpa using hstatus
      simp only [Option.bind_eq_bind, Option.bind_some, hne, if_true, reduceCtorEq, false_iff]
      rintro ⟨parent', members, heq, hst, -⟩
      cases heq
      exact hstatus hst

theorem refreshedParent_id {next : Records} (hkeyed : Keyed next)
    (h : refreshedParent size now next parentId = some refreshed) : refreshed.id = parentId := by
  obtain ⟨parent, members, hparent, -, -, rfl⟩ := refreshedParent_eq_some.mp h
  exact hkeyed parentId parent hparent

variable {plan : RefreshPlan}

theorem refreshParents_unprojected (hkeyed : Keyed plan.next) (parentIds : List String) :
    Keyed (refreshParents size now plan parentIds).next ∧
      ∀ id : String, ((refreshParents size now plan parentIds).next[id]?).map unprojected =
        (plan.next[id]?).map unprojected := by
  induction parentIds generalizing plan with
  | nil => exact ⟨hkeyed, fun _ => rfl⟩
  | cons parentId rest ih =>
    unfold refreshParents
    cases h : refreshedParent size now plan.next parentId with
    | none => exact ih hkeyed
    | some refreshed =>
      obtain ⟨hkeyed', hsame⟩ := @ih ⟨plan.next.insert refreshed.id refreshed,
        plan.changed ++ [refreshed.id]⟩ (hkeyed.insert refreshed)
      refine ⟨hkeyed', ?_⟩
      intro id
      refine (hsame id).trans ?_
      change ((plan.next.insert refreshed.id refreshed)[id]?).map unprojected = _
      rw [get_insert]
      split
      · rename_i hid
        obtain ⟨parent, members, hparent, -, -, rfl⟩ := refreshedParent_eq_some.mp h
        have hpid : parent.id = id := hid
        rw [← hkeyed parentId parent hparent, hpid] at hparent
        rw [hparent]
        rfl
      · rfl

theorem refreshParents_of_notMem (hkeyed : Keyed plan.next)
    (h : id ∉ parentIds) : (refreshParents size now plan parentIds).next[id]? = plan.next[id]? := by
  induction parentIds generalizing plan with
  | nil => rfl
  | cons parentId rest ih =>
    rw [mem_cons, not_or] at h
    unfold refreshParents
    cases hr : refreshedParent size now plan.next parentId with
    | none => exact ih hkeyed h.2
    | some refreshed =>
      refine (ih (hkeyed.insert refreshed) h.2).trans (get_insert_ne ?_)
      rw [refreshedParent_id hkeyed hr]
      exact Ne.symm h.1

theorem mem_refreshParents_changed (hkeyed : Keyed plan.next)
    (h : id ∈ (refreshParents size now plan parentIds).changed) :
    id ∈ plan.changed ∨ id ∈ parentIds := by
  induction parentIds generalizing plan with
  | nil => exact .inl h
  | cons parentId rest ih =>
    unfold refreshParents at h
    cases hr : refreshedParent size now plan.next parentId with
    | none =>
      rw [hr] at h
      exact (ih hkeyed h).imp_right (mem_cons_of_mem _)
    | some refreshed =>
      rw [hr] at h
      rcases ih (hkeyed.insert refreshed) h with hmem | hmem
      · rcases mem_append.mp hmem with hmem | hmem
        · exact .inl hmem
        · rw [mem_singleton, refreshedParent_id hkeyed hr] at hmem
          exact .inr (hmem ▸ mem_cons_self)
      · exact .inr (mem_cons_of_mem _ hmem)

theorem refreshParents_changed (plan : RefreshPlan) (parentIds : List String) :
    ∃ more, (refreshParents size now plan parentIds).changed = plan.changed ++ more := by
  induction parentIds generalizing plan with
  | nil => exact ⟨[], (append_nil _).symm⟩
  | cons parentId rest ih =>
    unfold refreshParents
    split
    · exact ih plan
    · rename_i refreshed _
      obtain ⟨more, hmore⟩ := ih ⟨plan.next.insert refreshed.id refreshed,
        plan.changed ++ [refreshed.id]⟩
      exact ⟨refreshed.id :: more, by rw [hmore, append_assoc]; rfl⟩

theorem refreshPlan_keyed (hkeyed : Keyed records) :
    Keyed (refreshPlan size now records proposals).next :=
  (refreshParents_unprojected (hkeyed.putProposals proposals) _).1

theorem refreshPlan_unprojected (hkeyed : Keyed records) (id : String) :
    ((refreshPlan size now records proposals).next[id]?).map unprojected =
      ((putProposals records proposals)[id]?).map unprojected :=
  (refreshParents_unprojected (hkeyed.putProposals proposals) _).2 id

theorem putProposals_unchanged (h : ∀ p ∈ proposals, records[p.id]? = some p) :
    putProposals records proposals = records := by
  induction proposals with
  | nil => rfl
  | cons p rest ih =>
    have hsame : records.insert p.id p = records := by
      apply TextMap.ext
      intro a
      rw [get_insert]
      split
      · rename_i heq
        rw [← heq, h p mem_cons_self]
      · rfl
    change putProposals (records.insert p.id p) rest = records
    rw [hsame]
    exact ih (fun q hq => h q (mem_cons_of_mem _ hq))

theorem refreshPlan_unchanged
    (h : (refreshPlan size now records proposals).changed.isEmpty = true) :
    (∀ p ∈ proposals, records[p.id]? = some p) ∧
      (refreshPlan size now records proposals).next = records := by
  have hnone : changedProposals records proposals = [] := by
    obtain ⟨more, hmore⟩ : ∃ more, (refreshPlan size now records proposals).changed =
        (changedProposals records proposals).map (·.id) ++ more := refreshParents_changed _ _
    rw [List.isEmpty_iff, hmore, append_eq_nil_iff, map_eq_nil_iff] at h
    exact h.1
  have hall : ∀ p ∈ proposals, records[p.id]? = some p := by
    intro p hp
    by_contra hne
    have hmem : p ∈ changedProposals records proposals :=
      mem_filter.mpr ⟨hp, by simpa using hne⟩
    rw [hnone] at hmem
    cases hmem
  refine ⟨hall, ?_⟩
  have hparents : sortedUnique (([] : List Recommendation).filterMap (·.rolledUpBy)) = [] := rfl
  rw [refreshPlan, hnone, hparents]
  exact putProposals_unchanged hall

end plan

/-! ## Accepting a graph -/

section accept
variable {digests : Digests} {current : Records}
  {expected : List (String × Option Recommendation)}
  {graph : List Recommendation} {next : Records}

theorem applyRecords_ok :
    applyRecords digests current expected graph = .ok next ↔
      readRecords digests current = .ok () ∧
      verifyRecords current expected = .ok () ∧
      (recordsById graph).size = graph.length ∧
      validateGraphRecords digests (values (recordsById graph)) = .ok () ∧
      checkKept (recordsById graph) current.toList = .ok () ∧
      validateEach digests (values (recordsById graph)) = .ok () ∧ next = recordsById graph := by
  unfold applyRecords
  rw [seq_eq_ok, seq_eq_ok, seq_eq_ok, seq_eq_ok, seq_eq_ok, seq_eq_ok, reject_eq_ok]
  have hsize : ((recordsById graph).size != graph.length) = false ↔
      (recordsById graph).size = graph.length := by simp
  have hnext : (pure (recordsById graph) : Except StoreError Records) = .ok next ↔
      next = recordsById graph := by
    change Except.ok _ = _ ↔ _
    rw [Except.ok.injEq, eq_comm]
  rw [hsize, hnext]

theorem refreshResult_ok {size : List WorkflowObservationEvidence → Nat}
    {context : EvaluationContext} {records : Records} (hkeyed : Keyed records)
    (h : refreshResult digests size context observations records = .ok next) :
    next = (plannedRefresh digests size context observations records).next := by
  obtain ⟨-, h⟩ := seq_eq_ok.mp h
  simp only at h
  split at h
  · rename_i hempty
    cases h
    exact (refreshPlan_unchanged hempty).2.symm
  · obtain ⟨-, -, -, -, -, -, hnext⟩ := applyRecords_ok.mp h
    rw [hnext]
    exact recordsById_values (refreshPlan_keyed hkeyed)

end accept

end Orkworksd.Taskmaster
