import Orkworksd.Taskmaster.CardRun
import Orkworksd.Taskmaster.RefreshPacket

/- At most one active card per family.

   A card is active while it is proposed, being executed or rolled up under a
   proposed parent. A card that was accepted is not: the evaluator counts it among
   the ones that have ended and proposes its successor when new observations come
   in, so an accepted card and its successor stand side by side
   (`accepted_card_succeeded`). Two operations can also put an active card next to
   another: a refresh, which picks the card to succeed by its `updated_at`, and the
   recovery of orphans, which proposes an accepted card again without looking at its
   family. Where neither happens, a family has at most one active card in every run
   (`single_active_card`). -/
namespace Orkworksd.Taskmaster
open Lib TextMap

/-- The card is proposed, being executed or rolled up under a proposed parent that
lists it. -/
def Active (records : Records) (r : Recommendation) : Prop :=
  isOpen r.status = true ∨ isActiveMember (listing records) r = true

/-- At most one active card per `improve_workflow` family. -/
def SingleActive (records : Records) : Prop :=
  ∀ r r' : Recommendation, records[r.id]? = some r → records[r'.id]? = some r' →
    improveKey r.dedupeKey = true → r'.dedupeKey = r.dedupeKey →
    Active records r → Active records r' → r = r'

/-- No successor is made next to an open card, and no accepted card is proposed
again next to an open one or together with another one. -/
def CardAction.Timely (records : Records) : CardAction → Prop
  | .refresh _ observations => ∀ f ∈ families observations, ∀ r : Recommendation,
      prior (listing records) f.dedupeKey = some r → finalStatus r.status = true →
      f.due (lineage (listing records) f.dedupeKey) = true →
      ∀ x : Recommendation, records[x.id]? = some x → x.dedupeKey = f.dedupeKey →
        isOpen x.status = false
  | .recoverOrphanedExecutions live protectedIds _ => ∀ r x : Recommendation,
      records[r.id]? = some r → records[x.id]? = some x → r ≠ x → x.dedupeKey = r.dedupeKey →
      r.status = .accepted → orphaned live protectedIds r.id r = true →
      isOpen x.status = false ∧ orphaned live protectedIds x.id x = false
  | _ => True

/-- A step of a run in which this holds of every operation. -/
def TimelyStep (env : Surroundings) (records : Records) (action : CardAction) (next : Records) :
    Prop :=
  action.Timely records ∧ CardStep env records action next

section single
variable {records next : Records}

theorem Plain.active_iff (hplain : Plain records) {r : Recommendation}
    (hr : records[r.id]? = some r) : Active records r ↔ isOpen r.status = true := by
  constructor
  · rintro (h | h)
    · exact h
    · exact absurd (isActiveMember_rolledUp h) (hplain r.id r hr).1
  · exact fun h => .inl h

/-- What the invariant of a run says. -/
structure Single (records : Records) : Prop where
  keyed : Keyed records
  plain : Plain records
  single : ∀ (id id' : String) (r r' : Recommendation), records[id]? = some r →
    records[id']? = some r' → improveKey r.dedupeKey = true → r'.dedupeKey = r.dedupeKey →
    isOpen r.status = true → isOpen r'.status = true → id = id'

theorem Single.active (h : Single records) : SingleActive records := by
  intro r r' hr hr' hkey hsame hactive hactive'
  rw [h.plain.active_iff hr] at hactive
  rw [h.plain.active_iff hr'] at hactive'
  have hid := h.single r.id r'.id r r' hr hr' hkey hsame hactive hactive'
  rw [hid, hr', Option.some.injEq] at hr
  exact hr.symm

theorem Single.empty : Single ∅ where
  keyed := fun id r h => by rw [get_empty] at h; cases h
  plain := fun id r h => by rw [get_empty] at h; cases h
  single := fun id id' r r' h => by rw [get_empty] at h; cases h

theorem Single.continues (h : Single records) (hcontinues : Continues records next) : Single next where
  keyed := hcontinues.keyed
  plain := hcontinues.plain h.plain
  single := by
    intro id id' r r' hr hr' hkey hsame hopen hopen'
    obtain ⟨x, hx, hmoves⟩ := hcontinues.new id r hr hkey
    obtain ⟨x', hx', hmoves'⟩ := hcontinues.new id' r' hr' (hsame.symm ▸ hkey)
    refine h.single id id' x x' hx hx' (hmoves.dedupeKey ▸ hkey) ?_ (hmoves.opens hopen)
      (hmoves'.opens hopen')
    rw [← hmoves'.dedupeKey, hsame, hmoves.dedupeKey]

variable {digests : Digests}

variable {observations : List WorkflowObservation} {context : EvaluationContext}

theorem Single.proposes_alone (h : Single records) {f : Family} (hf : f ∈ families observations)
    (htimely : (CardAction.refresh context observations).Timely records) {p : Recommendation}
    (hp : Proposes digests context records f p) {x : Recommendation} (hx : records[x.id]? = some x)
    (hkey : x.dedupeKey = f.dedupeKey) (hopen : isOpen x.status = true) : p.id = x.id := by
  obtain ⟨-, -, -, hcases⟩ := hp.plain_cases h.keyed h.plain
  rcases hcases with ⟨hnone, -⟩ | ⟨r, hr, hproposed, hid, -⟩ | ⟨r, hr, hfinal, -⟩
  · exact absurd hkey (hnone x ((mem_listing h.keyed).mpr hx))
  · obtain ⟨hmem, hrkey⟩ := prior_mem hr
    rw [hid]
    refine h.single r.id x.id r x ((mem_listing h.keyed).mp hmem) hx ?_ (hkey.trans hrkey.symm) ?_
      hopen
    · rw [hrkey]
      exact f.improveKey_dedupeKey
    · rw [hproposed]
      rfl
  · rw [htimely f hf r hr hfinal (evaluateFamily_due.mp hp).1 x hx hkey] at hopen
    cases hopen

theorem Single.refresh (h : Single records) {size : List WorkflowObservationEvidence → Nat}
    (htimely : (CardAction.refresh context observations).Timely records)
    (hresult : refreshResult digests size context observations records = .ok next) :
    Single next := by
  obtain ⟨hkeyed, hplain, -, hcases⟩ := refresh_cases h.keyed h.plain hresult
  refine ⟨hkeyed, hplain, ?_⟩
  intro id id' r r' hr hr' hkey hsame hopen hopen'
  have hid := hkeyed id r hr
  have hid' := hkeyed id' r' hr'
  rcases hcases id r hr with ⟨hold, hnot⟩ | ⟨f, hf, hp⟩
  · rcases hcases id' r' hr' with ⟨hold', -⟩ | ⟨f, hf, hp⟩
    · exact h.single id id' r r' hold hold' hkey hsame hopen hopen'
    · have halone := h.proposes_alone hf htimely hp (hid.symm ▸ hold)
        (hsame.symm.trans hp.dedupeKey) hopen
      exact absurd (halone.trans hid) (hnot f hf r' hp)
  · rcases hcases id' r' hr' with ⟨hold', hnot'⟩ | ⟨g, hg, hq⟩
    · have halone := h.proposes_alone hf htimely hp (hid'.symm ▸ hold')
        (hsame.trans hp.dedupeKey) hopen'
      exact absurd (halone.trans hid') (hnot' f hf r hp)
    · have hfg : f = g := by
        refine families_dedupeKey_inj hf hg ?_
        rw [← hp.dedupeKey, ← hq.dedupeKey, hsame]
      rw [← hid, ← hid', hp.eq, hq.eq, hfg]

theorem Single.orphans (h : Single records) {live protectedIds : String → Bool}
    {recoveredAt : String}
    (htimely : (CardAction.recoverOrphanedExecutions live protectedIds recoveredAt).Timely records)
    (hresult : recoverOrphansResult digests live protectedIds recoveredAt records = .ok next) :
    Single next := by
  unfold recoverOrphansResult at hresult
  obtain ⟨-, hresult⟩ := seq_eq_ok.mp hresult
  obtain ⟨-, hresult⟩ := seq_eq_ok.mp hresult
  split at hresult
  · cases hresult
    exact h
  rw [seq_eq_ok, seq_eq_ok, seq_eq_ok] at hresult
  obtain ⟨-, -, -, hnext⟩ := hresult
  cases hnext
  -- a record after the recovery, and what it was before
  have hback : ∀ (id : String) (r' : Recommendation),
      (records.map (fun id r => if orphaned live protectedIds id r then reproposed r recoveredAt
        else r))[id]? = some r' →
      ∃ r, records[id]? = some r ∧ r'.id = r.id ∧ r'.dedupeKey = r.dedupeKey ∧
        r'.rollupMemberIds = r.rollupMemberIds ∧ (r'.status = .rolledUp → r.status = .rolledUp) ∧
        (isOpen r'.status = true → isOpen r.status = true ∨
          (r.status = .accepted ∧ orphaned live protectedIds id r = true)) := by
    intro id r' hr'
    rw [get_map, Option.map_eq_some_iff] at hr'
    obtain ⟨r, hr, hr'⟩ := hr'
    refine ⟨r, hr, ?_⟩
    by_cases horphan : orphaned live protectedIds id r = true
    · rw [if_pos horphan] at hr'
      rw [← hr']
      refine ⟨rfl, rfl, rfl, (fun hrolled => by cases hrolled), fun _ => ?_⟩
      have hstatus : r.status = .executing ∨ r.status = .accepted := by
        unfold orphaned at horphan
        split at horphan
        · cases horphan
        · rw [Bool.and_eq_true, Bool.and_eq_true, Bool.or_eq_true, beq_iff_eq, beq_iff_eq] at horphan
          exact horphan.1.1
      rcases hstatus with hs | hs
      · exact .inl (by rw [hs]; rfl)
      · exact .inr ⟨hs, horphan⟩
    · rw [if_neg horphan] at hr'
      rw [← hr']
      exact ⟨rfl, rfl, rfl, fun hrolled => hrolled, fun hopen => .inl hopen⟩
  refine ⟨?_, ?_, ?_⟩
  · intro id r' hr'
    obtain ⟨r, hr, hid, -⟩ := hback id r' hr'
    exact hid.trans (h.keyed id r hr)
  · intro id r' hr'
    obtain ⟨r, hr, -, -, hmembers, hrolled, -⟩ := hback id r' hr'
    exact ⟨fun hs => (h.plain id r hr).1 (hrolled hs), hmembers.trans (h.plain id r hr).2⟩
  · intro id id' r r' hr hr' hkey hsame hopen hopen'
    obtain ⟨x, hx, -, hxkey, -, -, hxopen⟩ := hback id r hr
    obtain ⟨y, hy, -, hykey, -, -, hyopen⟩ := hback id' r' hr'
    have hxid := h.keyed id x hx
    have hyid := h.keyed id' y hy
    have hyx : y.dedupeKey = x.dedupeKey := by rw [← hxkey, ← hykey, hsame]
    by_contra hne
    have hdiffer : x ≠ y := fun heq => hne (by rw [← hxid, ← hyid, heq])
    rcases hxopen hopen with hxo | ⟨hxs, hxorphan⟩
    · rcases hyopen hopen' with hyo | ⟨hys, hyorphan⟩
      · exact hne (h.single id id' x y hx hy (hxkey ▸ hkey) hyx hxo hyo)
      · have halone := htimely y x (hyid.symm ▸ hy) (hxid.symm ▸ hx) (Ne.symm hdiffer) hyx.symm hys
          (hyid.symm ▸ hyorphan)
        rw [halone.1] at hxo
        cases hxo
    · have halone := htimely x y (hxid.symm ▸ hx) (hyid.symm ▸ hy) hdiffer hyx hxs
        (hxid.symm ▸ hxorphan)
      rcases hyopen hopen' with hyo | ⟨hys, hyorphan⟩
      · rw [halone.1] at hyo
        cases hyo
      · rw [hyid, hyorphan] at halone
        cases halone.2

theorem Single.step {env : Surroundings} {action : CardAction} (h : Single records)
    (hstep : TimelyStep env records action next) : Single next := by
  obtain ⟨htimely, rfl⟩ := hstep
  by_cases hrefresh : ∃ context observations, action = .refresh context observations
  · obtain ⟨context, observations, rfl⟩ := hrefresh
    unfold CardAction.perform
    cases hresult : (CardAction.refresh context observations).result env records with
    | error e => exact h
    | ok next => exact h.refresh htimely hresult
  by_cases horphans : ∃ live protectedIds recoveredAt,
      action = .recoverOrphanedExecutions live protectedIds recoveredAt
  · obtain ⟨live, protectedIds, recoveredAt, rfl⟩ := horphans
    unfold CardAction.perform
    cases hresult : (CardAction.recoverOrphanedExecutions live protectedIds recoveredAt).result
        env records with
    | error e => exact h
    | ok next => exact h.orphans htimely hresult
  · push Not at hrefresh horphans
    exact h.continues (CardAction.continues h.keyed hrefresh horphans)

/-- In every run from an empty store whose steps are timely, a family has at most one
active card. -/
theorem single_active_card (env : Surroundings) (actions : List CardAction) (records : Records)
    (hrun : Run (TimelyStep env) ∅ actions records) : SingleActive records :=
  (hrun.invariant Single Single.empty (fun h hstep => h.step hstep)).active

end single

namespace Sample

def chrono : Chrono where
  parse := fun text => if text = "2026-01-01T00:00:00Z" then some 1767225600000000000 else none
  utcNow := 1767225604000000000

def surroundings : Surroundings := ⟨evaluatorDigests, evidenceSize, chrono⟩

def firstId : String := "recommendation-efe86b37d0691ffd"
def secondId : String := "recommendation-67e95ba80e89f68d"

def threeObservations : List WorkflowObservation :=
  [observation "o1" 1, observation "o2" 2, observation "o3" 3]

/-- A card is proposed, accepted and delivered; then a third observation comes in. -/
def acceptedRun : List CardAction :=
  [.refresh ⟨"/w", "2026-01-01T00:00:04+00:00"⟩ threeObservations,
   .completeExecution firstId "2026-01-01T00:00:03+00:00",
   .beginExecution firstId "s" "2026-01-01T00:00:02+00:00",
   .refresh at1 [observation "o1" 1, observation "o2" 2]]

/-- The records after the actions, newest first. -/
def after : List CardAction → Records
  | [] => ∅
  | action :: actions => action.perform surroundings (after actions)

theorem run_after (actions : List CardAction) :
    Run (CardStep surroundings) ∅ actions (after actions) := by
  induction actions with
  | nil => exact .start
  | cons action actions ih => exact .next ih rfl

end Sample

open Sample

/-- Of an accepted card and its successor only the successor is active: the card had ended
when the second refresh made the other. -/
theorem successor_active_alone :
    (values (after acceptedRun)).map (fun r => (r.id, r.status)) =
        [(secondId, .proposed), (firstId, .accepted)] ∧
      SingleActive (after acceptedRun) := by
  refine ⟨by decide +kernel, single_active_card surroundings acceptedRun _ ?_⟩
  have hended : (after acceptedRun.tail).toList.all
      (fun item => !isOpen item.2.status) = true := by decide +kernel
  refine .next (.next (.next (.next .start ⟨?_, rfl⟩) ⟨trivial, rfl⟩) ⟨trivial, rfl⟩) ⟨?_, rfl⟩
  · intro f _ r _ _ _ x hx
    rw [get_empty] at hx
    cases hx
  · intro f _ r _ _ _ x hx _
    have hopen := List.all_eq_true.mp hended (x.id, x) (mem_toList.mpr hx)
    simpa using hopen

/-- An accepted card and the successor the evaluator proposes for it are both in the
store. -/
theorem accepted_card_succeeded :
    ∃ records, Run (CardStep surroundings) ∅ acceptedRun records ∧
      ∃ r r' : Recommendation, records[firstId]? = some r ∧
        records[secondId]? = some r' ∧ improveKey r.dedupeKey = true ∧
        r'.dedupeKey = r.dedupeKey ∧ r.status = .accepted ∧ r'.status = .proposed ∧
        r'.workflowImprovement.supersedesRecommendationId = some r.id := by
  refine ⟨_, run_after acceptedRun, ?_⟩
  have hfirst : ((after acceptedRun)[firstId]?).map (fun r =>
      (r.id, r.dedupeKey, r.status)) =
      some (firstId, "improve_workflow:v1:tooling:fp", .accepted) := by decide +kernel
  have hsecond : ((after acceptedRun)[secondId]?).map (fun r =>
      (r.dedupeKey, r.status, r.workflowImprovement.supersedesRecommendationId)) =
      some ("improve_workflow:v1:tooling:fp", .proposed, some firstId) := by decide +kernel
  obtain ⟨r, hr, heq⟩ := Option.map_eq_some_iff.mp hfirst
  obtain ⟨r', hr', heq'⟩ := Option.map_eq_some_iff.mp hsecond
  simp only [Prod.mk.injEq] at heq heq'
  obtain ⟨hid, hkey, hstatus⟩ := heq
  obtain ⟨hkey', hstatus', hlink⟩ := heq'
  refine ⟨r, r', hr, hr', ?_, hkey'.trans hkey.symm, hstatus, hstatus', ?_⟩
  · rw [hkey]
    decide
  · rw [hlink, hid]

end Orkworksd.Taskmaster
