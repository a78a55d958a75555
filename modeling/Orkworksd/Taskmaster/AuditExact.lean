import Mathlib.Data.Prod.Lex
import Mathlib.Logic.Relation
import Mathlib.Tactic.Tauto
import Orkworksd.Taskmaster.ActiveCard

/- The audit on an arbitrary set of records: the links between them may dangle and may
   run in circles.

   What is proved:
     1. `supersedesChainContains_iff_reaches`: the walk along the links ends and finds
        exactly the ids that the links lead to.
     2. `buildCleanupCard_counts`: the card lists the flagged records once each, and what
        it calls healthy is the rest.
     3. `newest_survives`: in a family without an unextended ended sibling the newest
        proposed card alone is not a duplicate. -/
namespace Orkworksd.Taskmaster
open Lib List

variable {recommendations : List Recommendation}

/-! ## The links as a graph -/

/-- The link of the first record with this id. -/
def nextLink (recommendations : List Recommendation) (id : String) : Option String :=
  (findById recommendations id).bind (·.workflowImprovement.supersedesRecommendationId)

/-- The links lead from `link` to the target in any number of further steps. -/
def Reaches (recommendations : List Recommendation) (link : Option String) (target : String) : Prop :=
  ∃ id, link = some id ∧
    Relation.ReflTransGen (fun a b => nextLink recommendations a = some b) id target

section Walk

variable {recommendations : List Recommendation} {target : String}

variable {id : String}

theorem Reaches.step (h : Reaches recommendations (nextLink recommendations id) target) :
    Reaches recommendations (some id) target := by
  obtain ⟨next, hnext, hpath⟩ := h
  exact ⟨id, rfl, hpath.head hnext⟩

theorem Reaches.cases (h : Reaches recommendations (some id) target) :
    id = target ∨ Reaches recommendations (nextLink recommendations id) target := by
  obtain ⟨first, hfirst, hpath⟩ := h
  obtain rfl : id = first := Option.some.inj hfirst
  cases hpath.cases_head with
  | inl heq => exact Or.inl heq
  | inr hstep =>
    obtain ⟨next, hnext, hrest⟩ := hstep
    exact Or.inr ⟨next, hnext, hrest⟩

/-- The visited ids are not the target, and their links stay among them or lead to the
cursor. -/
def WalkedFrom (recommendations : List Recommendation) (target : String) (visited : List String)
    (cursor : Option String) : Prop :=
  ∀ v ∈ visited, v ≠ target ∧
    ∀ w, nextLink recommendations v = some w → w ∈ visited ∨ cursor = some w

variable {visited : List String}

theorem WalkedFrom.not_reaches (h : WalkedFrom recommendations target visited (some id))
    (hid : id ∈ visited) : ¬ Reaches recommendations (some id) target := by
  intro hreaches
  obtain ⟨first, hfirst, hpath⟩ := hreaches
  obtain rfl : id = first := Option.some.inj hfirst
  have hclosed : ∀ v ∈ visited, ∀ w, nextLink recommendations v = some w → w ∈ visited := by
    intro v hv w hw
    cases (h v hv).2 w hw with
    | inl hmem => exact hmem
    | inr hback =>
      obtain rfl : id = w := Option.some.inj hback
      exact hid
  have hinside : ∀ reached, Relation.ReflTransGen (fun a b => nextLink recommendations a = some b)
      id reached → reached ∈ visited := by
    intro reached hpath
    induction hpath with
    | refl => exact hid
    | tail _ hstep ih => exact hclosed _ ih _ hstep
  exact (h target (hinside target hpath)).1 rfl

theorem WalkedFrom.visit (h : WalkedFrom recommendations target visited (some id))
    (hid : id ≠ target) :
    WalkedFrom recommendations target (id :: visited) (nextLink recommendations id) := by
  intro v hv
  cases mem_cons.mp hv with
  | inl heq =>
    subst heq
    exact ⟨hid, fun w hw => Or.inr hw⟩
  | inr hmem =>
    refine ⟨(h v hmem).1, fun w hw => Or.inl ?_⟩
    cases (h v hmem).2 w hw with
    | inl hinside => exact mem_cons_of_mem id hinside
    | inr hback =>
      obtain rfl : id = w := Option.some.inj hback
      exact mem_cons_self

/-- The loop finds what the cursor leads to; the induction is on the fuel, which the
records not yet visited bound. -/
theorem chainLoop_iff {fuel : Nat} {cursor : Option String}
    (hwalked : WalkedFrom recommendations target visited cursor)
    (hfuel : unvisited recommendations visited + 2 ≤ fuel) :
    chainLoop recommendations target fuel visited cursor = some true ↔
      Reaches recommendations cursor target := by
  induction fuel generalizing visited cursor with
  | zero => omega
  | succ fuel ih =>
    cases cursor with
    | none =>
      refine ⟨fun h => by simp [chainLoop] at h, fun h => ?_⟩
      obtain ⟨id, hid, -⟩ := h
      cases hid
    | some id =>
      unfold chainLoop
      by_cases htarget : id = target
      · rw [if_pos (by rw [htarget]; exact beq_self_eq_true target)]
        exact ⟨fun _ => ⟨id, rfl, htarget ▸ Relation.ReflTransGen.refl⟩, fun _ => rfl⟩
      · rw [if_neg (by rwa [beq_iff_eq])]
        by_cases hvisited : visited.contains id = true
        · rw [if_pos hvisited]
          have hmem : id ∈ visited := by simpa using hvisited
          exact ⟨fun h => by simp at h, fun h => absurd h (hwalked.not_reaches hmem)⟩
        · rw [if_neg hvisited]
          have hstep : Reaches recommendations (some id) target ↔
              Reaches recommendations (nextLink recommendations id) target :=
            ⟨fun h => h.cases.resolve_left htarget, Reaches.step⟩
          rw [hstep]
          cases hfind : findById recommendations id with
          | none =>
            -- The link dangles: the walk ends behind it.
            have hend : nextLink recommendations id = none := by
              rw [nextLink, hfind]
              rfl
            rw [hend, Option.bind_none]
            refine ⟨fun h => ?_, fun h => ?_⟩
            · cases fuel with
              | zero => cases h
              | succ fuel => cases h
            · obtain ⟨next, hnext, -⟩ := h
              cases hnext
          | some r =>
            obtain ⟨hr, rfl⟩ := findById_mem hfind
            have hlt := @unvisited_lt recommendations visited r hr (by simpa using hvisited)
            have hrest := ih (hwalked.visit htarget) (by omega)
            rw [nextLink, hfind] at hrest ⊢
            exact hrest

end Walk

theorem supersedesChainContains_iff_reaches (recommendations : List Recommendation)
    (start : Recommendation) (target : String) :
    (∀ fuel, recommendations.length + 2 ≤ fuel →
      chainLoop recommendations target fuel [] start.workflowImprovement.supersedesRecommendationId =
        some (supersedesChainContains recommendations start target)) ∧
    (supersedesChainContains recommendations start target = true ↔
      Reaches recommendations start.workflowImprovement.supersedesRecommendationId target) := by
  have hwalked : WalkedFrom recommendations target []
      start.workflowImprovement.supersedesRecommendationId := fun v hv => absurd hv not_mem_nil
  have hunvisited : unvisited recommendations [] ≤ recommendations.length :=
    length_filter_le _ _
  have hloop : ∀ fuel, recommendations.length + 2 ≤ fuel →
      (chainLoop recommendations target fuel []
          start.workflowImprovement.supersedesRecommendationId = some true ↔
        Reaches recommendations start.workflowImprovement.supersedesRecommendationId target) :=
    fun fuel hfuel => chainLoop_iff hwalked (by omega)
  have hcontains : supersedesChainContains recommendations start target = true ↔
      Reaches recommendations start.workflowImprovement.supersedesRecommendationId target := by
    rw [← hloop _ (Nat.le_refl _), supersedesChainContains_eq, Option.some.injEq]
  refine ⟨fun fuel hfuel => ?_, hcontains⟩
  obtain ⟨found, hfound⟩ := Option.isSome_iff_exists.mp (chainLoop_start recommendations target
    start.workflowImprovement.supersedesRecommendationId hfuel)
  have hsame : found = true ↔ supersedesChainContains recommendations start target = true := by
    rw [hcontains, ← hloop fuel hfuel, hfound, Option.some.injEq]
  rw [hfound, Bool.eq_iff_iff.mpr hsame]

/-! ## The counts of the card -/

/-- The audit finds fault with the record. -/
def flagged (chrono : Chrono) (recommendations : List Recommendation) (now : Int)
    (candidate : Recommendation) : Bool :=
  !(auditCriteria chrono recommendations now candidate).isEmpty

def auditEntry (chrono : Chrono) (recommendations : List Recommendation) (now : Int)
    (candidate : Recommendation) : AuditCleanupEntry where
  id := candidate.id
  title := candidate.title
  criteria := auditCriteria chrono recommendations now candidate

theorem auditEntries_eq (chrono : Chrono) (recommendations : List Recommendation) (now : Int) :
    auditEntries chrono recommendations now =
      ((recommendations.filter audited).filter (flagged chrono recommendations now)).map
        (auditEntry chrono recommendations now) := by
  unfold auditEntries
  induction recommendations.filter audited with
  | nil => rfl
  | cons candidate rest ih =>
    rw [filterMap_cons, filter_cons, ih]
    by_cases hempty : (auditCriteria chrono recommendations now candidate).isEmpty = true
    · have hhealthy : ¬ flagged chrono recommendations now candidate = true := by
        simp [flagged, hempty]
      rw [if_neg hhealthy]
      simp only [if_pos hempty]
    · have hflagged : flagged chrono recommendations now candidate = true := by
        simp [flagged, hempty]
      rw [if_pos hflagged, map_cons]
      simp only [if_neg hempty]
      rfl

theorem buildCleanupCard_counts (digests : Digests) (chrono : Chrono)
    (recommendations : List Recommendation) (workspaceId now : String)
    (prior : Option Recommendation) {card : Recommendation}
    (h : buildCleanupCard digests chrono recommendations workspaceId now prior = some card) :
    ∃ audit, card.audit = some audit ∧
      audit.scanned = (recommendations.filter audited).length ∧
      audit.entries = ((recommendations.filter audited).filter
          (flagged chrono recommendations ((chrono.parse now).getD chrono.utcNow))).map
        (auditEntry chrono recommendations ((chrono.parse now).getD chrono.utcNow)) ∧
      audit.healthy = ((recommendations.filter audited).filter (fun candidate =>
        !flagged chrono recommendations ((chrono.parse now).getD chrono.utcNow) candidate)).length ∧
      audit.scanned = audit.healthy + audit.entries.length := by
  simp only [buildCleanupCard, auditEntries_eq] at h
  split at h
  · cases h
  · obtain rfl := Option.some.inj h
    have hsplit := length_eq_length_filter_add
      (l := recommendations.filter audited)
      (flagged chrono recommendations ((chrono.parse now).getD chrono.utcNow))
    refine ⟨_, rfl, rfl, rfl, ?_, ?_⟩
    · simp only [length_map]
      omega
    · simp only [length_map]
      omega

/-! ## The survivor of a family -/

/-- What `(created_at, id)` orders. -/
def creation (r : Recommendation) : String ×ₗ String := toLex (r.createdAt, r.id)

theorem createdAfter_iff {left right : Recommendation} :
    createdAfter left right = true ↔ creation right < creation left := by
  simp only [createdAfter, Bool.or_eq_true, Bool.and_eq_true, decide_eq_true_eq, beq_iff_eq,
    creation, Prod.Lex.toLex_lt_toLex]
  refine or_congr Iff.rfl (and_congr ⟨Eq.symm, Eq.symm⟩ Iff.rfl)

/-- The proposed cards of a dedupe key. -/
def familyMembers (recommendations : List Recommendation) (dedupeKey : String) : List Recommendation :=
  (recommendations.filter audited).filter (fun candidate => candidate.dedupeKey == dedupeKey)

/-- An ended card of the family that the links of this one do not lead to. -/
def Unextended (recommendations : List Recommendation) (candidate : Recommendation) : Prop :=
  ∃ sibling ∈ recommendations, sibling.dedupeKey = candidate.dedupeKey ∧
    finalStatus sibling.status = true ∧
    ¬ Reaches recommendations candidate.workflowImprovement.supersedesRecommendationId sibling.id

theorem hasUnextended_iff (recommendations : List Recommendation) (candidate : Recommendation) :
    (familyContext recommendations candidate).hasUnextendedTerminalSibling = true ↔
      Unextended recommendations candidate := by
  simp only [familyContext, any_eq_true, Bool.and_eq_true, beq_iff_eq, Bool.not_eq_true',
    Unextended]
  refine exists_congr (fun sibling => and_congr_right (fun _ => ?_))
  rw [and_assoc, ← (supersedesChainContains_iff_reaches recommendations candidate sibling.id).2,
    Bool.not_eq_true]

variable {candidate : Recommendation}

theorem duplicate_iff {chrono : Chrono} {now : Int} (haudited : audited candidate = true) :
    .duplicate ∈ auditCriteria chrono recommendations now candidate ↔
      (familyContext recommendations candidate).hasNewerProposedSibling = true ∨
        (familyContext recommendations candidate).hasUnextendedTerminalSibling = true := by
  have hplain : candidate.rollupMemberIds.isEmpty = true := by
    simp only [audited, Bool.and_eq_true] at haudited
    exact haudited.1.2
  rw [auditCriteria, classify, if_neg (by rw [hplain]; decide), ← Bool.or_eq_true]
  constructor
  · intro hmem
    by_contra hnot
    rw [if_neg hnot] at hmem
    simp only [mem_append, not_mem_nil, or_false] at hmem
    rcases hmem with (hmem | hmem) | hmem
    · split at hmem <;> simp at hmem
    · split at hmem <;> simp at hmem
    · split at hmem <;> simp at hmem
  · intro hor
    rw [if_pos hor]
    simp

theorem hasNewer_iff :
    (familyContext recommendations candidate).hasNewerProposedSibling = true ↔
      ∃ sibling ∈ familyMembers recommendations candidate.dedupeKey, sibling.id ≠ candidate.id ∧
        creation candidate < creation sibling := by
  simp only [familyContext, familyMembers, any_eq_true, mem_filter, Bool.and_eq_true,
    bne_iff_ne, beq_iff_eq, createdAfter_iff, and_assoc, ne_eq]
  exact exists_congr (fun sibling => by tauto)

theorem exists_newest {cards : List Recommendation} (h : cards ≠ []) :
    ∃ newest ∈ cards, ∀ card ∈ cards, creation card ≤ creation newest := by
  induction cards with
  | nil => exact absurd rfl h
  | cons first rest ih =>
    by_cases hrest : rest = []
    · subst hrest
      refine ⟨first, mem_cons_self, fun card hcard => ?_⟩
      rw [mem_singleton.mp hcard]
    · obtain ⟨newest, hmem, hle⟩ := ih hrest
      cases le_total (creation first) (creation newest) with
      | inl hfirst =>
        refine ⟨newest, mem_cons_of_mem first hmem, fun card hcard => ?_⟩
        cases mem_cons.mp hcard with
        | inl heq => exact heq ▸ hfirst
        | inr hcard => exact hle card hcard
      | inr hfirst =>
        refine ⟨first, mem_cons_self, fun card hcard => ?_⟩
        cases mem_cons.mp hcard with
        | inl heq => exact heq ▸ le_refl _
        | inr hcard => exact (hle card hcard).trans hfirst

theorem newest_survives {dedupeKey : String}
    (hids : (recommendations.map (·.id)).Nodup) (hne : familyMembers recommendations dedupeKey ≠ [])
    (hextended : ∀ candidate ∈ familyMembers recommendations dedupeKey,
      ¬ Unextended recommendations candidate) (chrono : Chrono) (now : Int) :
    ∃ newest ∈ familyMembers recommendations dedupeKey,
      (∀ card ∈ familyMembers recommendations dedupeKey, card ≠ newest → creation card < creation newest) ∧
      ∀ card ∈ familyMembers recommendations dedupeKey,
        (.duplicate ∉ auditCriteria chrono recommendations now card ↔ card = newest) := by
  obtain ⟨newest, hmem, hle⟩ := exists_newest hne
  have hstored : ∀ card ∈ familyMembers recommendations dedupeKey,
      card ∈ recommendations ∧ audited card = true ∧ card.dedupeKey = dedupeKey := by
    intro card hcard
    simp only [familyMembers, mem_filter, beq_iff_eq] at hcard
    exact ⟨hcard.1.1, hcard.1.2, hcard.2⟩
  have hid : ∀ card ∈ familyMembers recommendations dedupeKey, card.id = newest.id → card = newest :=
    fun card hcard heq => inj_on_of_nodup_map hids (hstored card hcard).1 (hstored newest hmem).1 heq
  have hlt : ∀ card ∈ familyMembers recommendations dedupeKey, card ≠ newest →
      creation card < creation newest := by
    intro card hcard hcardne
    refine lt_of_le_of_ne (hle card hcard) (fun heq => hcardne (hid card hcard ?_))
    exact congrArg (fun pair => (ofLex pair).2) heq
  refine ⟨newest, hmem, hlt, fun card hcard => ?_⟩
  obtain ⟨-, haudited, hkey⟩ := hstored card hcard
  rw [duplicate_iff haudited, hasNewer_iff, hasUnextended_iff, hkey]
  constructor
  · intro hnot
    by_contra hcardne
    refine hnot (Or.inl ⟨newest, hmem, fun heq => hcardne (hid card hcard heq.symm), ?_⟩)
    exact hlt card hcard hcardne
  · intro heq hduplicate
    subst heq
    cases hduplicate with
    | inl hnewer =>
      obtain ⟨sibling, hsibling, -, hafter⟩ := hnewer
      exact absurd (hle sibling hsibling) (not_le.mpr hafter)
    | inr hunextended => exact hextended card hcard hunextended

/-- The walk along any links ends before its fuel is used up and finds what they lead to, the card counts every record
once, and a family whose ended cards are all extended keeps its newest proposed card only. -/
theorem audit_exact (digests : Digests) (chrono : Chrono) (recommendations : List Recommendation)
    (workspaceId now : String) (prior : Option Recommendation) :
    (∀ start target,
      (∀ fuel, recommendations.length + 2 ≤ fuel →
        chainLoop recommendations target fuel []
            start.workflowImprovement.supersedesRecommendationId =
          some (supersedesChainContains recommendations start target)) ∧
      (supersedesChainContains recommendations start target = true ↔
        Reaches recommendations start.workflowImprovement.supersedesRecommendationId target)) ∧
    (∀ card, buildCleanupCard digests chrono recommendations workspaceId now prior = some card →
      ∃ audit, card.audit = some audit ∧
        audit.scanned = (recommendations.filter audited).length ∧
        audit.entries = ((recommendations.filter audited).filter
            (flagged chrono recommendations ((chrono.parse now).getD chrono.utcNow))).map
          (auditEntry chrono recommendations ((chrono.parse now).getD chrono.utcNow)) ∧
        audit.healthy = ((recommendations.filter audited).filter (fun candidate =>
          !flagged chrono recommendations ((chrono.parse now).getD chrono.utcNow) candidate)).length ∧
        audit.scanned = audit.healthy + audit.entries.length) ∧
    ((recommendations.map (·.id)).Nodup → ∀ dedupeKey, familyMembers recommendations dedupeKey ≠ [] →
      (∀ candidate ∈ familyMembers recommendations dedupeKey, ¬ Unextended recommendations candidate) →
      ∀ at_, ∃ newest ∈ familyMembers recommendations dedupeKey,
        (∀ card ∈ familyMembers recommendations dedupeKey, card ≠ newest →
          creation card < creation newest) ∧
        ∀ card ∈ familyMembers recommendations dedupeKey,
          (.duplicate ∉ auditCriteria chrono recommendations at_ card ↔ card = newest)) :=
  ⟨fun start target => supersedesChainContains_iff_reaches recommendations start target,
    fun _ hcard => buildCleanupCard_counts digests chrono recommendations workspaceId now prior hcard,
    fun hids _ hne hextended at_ => newest_survives hids hne hextended chrono at_⟩

namespace Sample

/-- A proposed card of one family, made of what a cleanup card is made of. -/
def familyCard (id createdAt : String) (supersedes : Option String) : Recommendation :=
  { cleanupCard "w1" createdAt ⟨id, 0, createdAt, supersedes⟩ 0 [] with
    recommendationType := .improveWorkflow
    dedupeKey := "improve_workflow:v1:a"
    audit := none }

/-- Two cards that each name the other as the one it succeeds. -/
def circle : List Recommendation :=
  [familyCard "r1" "2026-01-01T00:00:00Z" (some "r2"),
    familyCard "r2" "2026-01-02T00:00:00Z" (some "r1")]

end Sample

/-- Of two cards whose links run in a circle the audit calls the older one a duplicate. -/
theorem audit_exact_circle :
    ∃ newest ∈ familyMembers Sample.circle "improve_workflow:v1:a",
      (∀ card ∈ familyMembers Sample.circle "improve_workflow:v1:a", card ≠ newest →
        creation card < creation newest) ∧
      ∀ card ∈ familyMembers Sample.circle "improve_workflow:v1:a",
        (.duplicate ∉ auditCriteria Sample.chrono Sample.circle 1767225604000000000 card ↔
          card = newest) := by
  have hopen : ∀ sibling ∈ Sample.circle, finalStatus sibling.status = false := by decide
  exact (audit_exact Sample.evaluatorDigests Sample.chrono Sample.circle "w1"
    "2026-01-03T00:00:00Z" none).2.2 (by decide +kernel) _ (by decide +kernel)
    (fun _ _ hunextended => by
      obtain ⟨sibling, hsibling, -, hfinal, -⟩ := hunextended
      rw [hopen sibling hsibling] at hfinal
      cases hfinal) _

end Orkworksd.Taskmaster
