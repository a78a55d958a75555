import Orkworksd.Taskmaster.RefreshAccept

/- The recommendation audit (`taskmaster/audit.rs`) and the two operations of
   `session_application.rs` that store its cleanup card and carry it out.

   The audit classifies every proposed `improve_workflow` card; the ones it finds
   wanting are listed on a cleanup card. A card is a duplicate when a newer
   proposed card of its family exists, or a card of the family that has ended and
   that its chain of `supersedes` links does not reach. The walk along the links
   keeps the set of visited ids; its fuel is never used up (`chainLoop_isSome`). -/
namespace Orkworksd.Taskmaster
open Lib List

/-- `chrono`: RFC 3339 texts as nanoseconds of the epoch, and the clock. -/
structure Chrono where
  parse : String → Option Int
  utcNow : Int

def staleAfterDays : Nat := 14

/-- `Duration::days` in nanoseconds. -/
def days (n : Nat) : Int := n * (86400 * 10 ^ 9)

/-- Precomputed context of a dedupe key. -/
structure FamilyContext where
  hasNewerProposedSibling : Bool
  hasUnextendedTerminalSibling : Bool

def qualifies (evidence : WorkflowObservationEvidence) : Bool :=
  decide (confidenceFloor ≤ evidence.confidence)
    && (evidence.reportedImpact != .high || decide (highConfidence ≤ evidence.confidence))

/-- The ids of qualifying evidence, as a set. -/
def qualifyingIds (recommendation : Recommendation) : List String :=
  ((recommendation.evidence.filter qualifies).map (·.observationId)).dedup

/-- The time of the newest evidence, when every time can be read. -/
def newestEvidence (chrono : Chrono) (recommendation : Recommendation) : Option Int :=
  (recommendation.evidence.mapM (fun evidence => chrono.parse evidence.observedAt)).bind List.max?

def classify (chrono : Chrono) (recommendation : Recommendation) (family : FamilyContext)
    (now : Int) : List AuditCriterion :=
  if !recommendation.rollupMemberIds.isEmpty then []
  else
    (if (qualifyingIds recommendation).length < 2 then [.underEligible] else [])
    ++ (if !recommendation.evidence.isEmpty && recommendation.evidence.all (fun evidence =>
        evidence.source == .peon && evidence.problemArea.isNone) then [.noise] else [])
    ++ (if family.hasNewerProposedSibling || family.hasUnextendedTerminalSibling then
        [.duplicate] else [])
    ++ (if (newestEvidence chrono recommendation).any (fun newest =>
        decide (days staleAfterDays < now - newest)) then [.stale] else [])

/-! ## The chain of `supersedes` links -/

/-- The `while let` loop of `supersedes_chain_contains`; without an answer where the
fuel is used up. -/
def chainLoop (recommendations : List Recommendation) (target : String) :
    Nat → List String → Option String → Option Bool
  | _, _, none => some false
  | 0, _, some _ => none
  | fuel + 1, visited, some id =>
    if id == target then some true
    else if visited.contains id then some false
    else chainLoop recommendations target fuel (id :: visited)
      ((findById recommendations id).bind (·.workflowImprovement.supersedesRecommendationId))

/-- The records that the walk has not visited. -/
def unvisited (recommendations : List Recommendation) (visited : List String) : Nat :=
  (recommendations.filter (fun recommendation => !visited.contains recommendation.id)).length

theorem unvisited_lt {recommendations : List Recommendation} {visited : List String}
    {r : Recommendation} (hr : r ∈ recommendations) (hnot : r.id ∉ visited) :
    unvisited recommendations (r.id :: visited) < unvisited recommendations visited := by
  unfold unvisited
  have hsub : (recommendations.filter (fun x => !(r.id :: visited).contains x.id)) =
      ((recommendations.filter (fun x => !visited.contains x.id)).filter (fun x => x.id != r.id)) := by
    rw [filter_filter]
    refine filter_congr ?_
    intro x _
    by_cases hx : x.id = r.id
    · simp [hx]
    · simp [hx]
  rw [hsub]
  refine length_filter_lt_length_iff_exists.mpr ⟨r, ?_, by simp⟩
  exact mem_filter.mpr ⟨hr, by simpa using hnot⟩

/-- Every turn of the loop visits a record it has not visited, so this fuel is never
used up. -/
theorem chainLoop_isSome {recommendations : List Recommendation} {target : String} {fuel : Nat}
    {visited : List String} {cursor : Option String}
    (hfuel : unvisited recommendations visited + 2 ≤ fuel) :
    (chainLoop recommendations target fuel visited cursor).isSome := by
  induction fuel generalizing visited cursor with
  | zero => omega
  | succ fuel ih =>
    cases cursor with
    | none => rfl
    | some id =>
      unfold chainLoop
      by_cases htarget : (id == target) = true
      · rw [if_pos htarget]
        rfl
      · rw [if_neg htarget]
        by_cases hvisited : visited.contains id = true
        · rw [if_pos hvisited]
          rfl
        · rw [if_neg hvisited]
          cases hfind : findById recommendations id with
          | none =>
            unfold chainLoop
            rfl
          | some r =>
            obtain ⟨hr, rfl⟩ := findById_mem hfind
            have hlt := @unvisited_lt recommendations visited r hr (by simpa using hvisited)
            exact ih (by omega)

theorem chainLoop_start (recommendations : List Recommendation) (target : String)
    (cursor : Option String) {fuel : Nat} (hfuel : recommendations.length + 2 ≤ fuel) :
    (chainLoop recommendations target fuel [] cursor).isSome := by
  have hle : unvisited recommendations [] ≤ recommendations.length := length_filter_le _ _
  exact chainLoop_isSome (by omega)

def supersedesChainContains (recommendations : List Recommendation) (start : Recommendation)
    (target : String) : Bool :=
  (chainLoop recommendations target (recommendations.length + 2) []
    start.workflowImprovement.supersedesRecommendationId).get
    (chainLoop_start recommendations target _ (Nat.le_refl _))

theorem supersedesChainContains_eq (recommendations : List Recommendation)
    (start : Recommendation) (target : String) :
    chainLoop recommendations target (recommendations.length + 2) []
        start.workflowImprovement.supersedesRecommendationId =
      some (supersedesChainContains recommendations start target) :=
  (Option.some_get _).symm

/-! ## The cleanup card -/

/-- `(created_at, id)` of the left one is greater. -/
def createdAfter (left right : Recommendation) : Bool :=
  right.createdAt < left.createdAt || (left.createdAt == right.createdAt && right.id < left.id)

/-- The cards an audit looks at. -/
def audited (recommendation : Recommendation) : Bool :=
  recommendation.status == .proposed && recommendation.recommendationType != .cleanup
    && recommendation.rollupMemberIds.isEmpty
    && "improve_workflow:v1:".toList.isPrefixOf recommendation.dedupeKey.toList

def familyContext (recommendations : List Recommendation) (candidate : Recommendation) :
    FamilyContext where
  hasNewerProposedSibling := (recommendations.filter audited).any (fun sibling =>
    sibling.id != candidate.id && sibling.dedupeKey == candidate.dedupeKey
      && createdAfter sibling candidate)
  hasUnextendedTerminalSibling := recommendations.any (fun sibling =>
    sibling.dedupeKey == candidate.dedupeKey && finalStatus sibling.status
      && !supersedesChainContains recommendations candidate sibling.id)

/-- The criteria of one candidate. -/
def auditCriteria (chrono : Chrono) (recommendations : List Recommendation) (now : Int)
    (candidate : Recommendation) : List AuditCriterion :=
  classify chrono candidate (familyContext recommendations candidate) now

def auditEntries (chrono : Chrono) (recommendations : List Recommendation) (now : Int) :
    List AuditCleanupEntry :=
  (recommendations.filter audited).filterMap (fun candidate =>
    let criteria := auditCriteria chrono recommendations now candidate
    if criteria.isEmpty then none
    else some { id := candidate.id, title := candidate.title, criteria := criteria })

/-- How often a criterion was met. -/
def criterionCount (entries : List AuditCleanupEntry) (criterion : AuditCriterion) : Nat :=
  (entries.map (fun entry => entry.criteria.count criterion)).sum

/-- `max_by` on `(updated_at, id)` of the cleanup cards that have ended. -/
def terminalCleanup (recommendations : List Recommendation) : Option Recommendation :=
  match recommendations.filter (fun recommendation =>
    recommendation.recommendationType == .cleanup && finalStatus recommendation.status) with
  | [] => none
  | first :: rest => some (rest.foldl (fun best next =>
      if next.updatedAt < best.updatedAt
          || (next.updatedAt == best.updatedAt && next.id < best.id) then best else next) first)

/-- Where the card's id, depth, creation time and link come from. -/
structure CleanupOrigin where
  id : String
  chainDepth : Nat
  createdAt : String
  supersedes : Option String

def cleanupOrigin (digests : Digests) (recommendations : List Recommendation) (now : String)
    (prior : Option Recommendation) : CleanupOrigin :=
  match prior, terminalCleanup recommendations with
  | some prior, _ =>
    ⟨prior.id, prior.chainDepth, prior.createdAt,
      prior.workflowImprovement.supersedesRecommendationId⟩
  | none, some terminal =>
    ⟨newId digests "cleanup:v1" [terminal.id], nextDepth terminal.chainDepth, now, some terminal.id⟩
  | none, none => ⟨newId digests "cleanup:v1" [], 0, now, none⟩

def cleanupImprovement (entries : List AuditCleanupEntry) : String :=
  "Dismiss " ++ toString entries.length
    ++ " proposed recommendations audited as under-eligible/noise/duplicate/stale."

def cleanupReason (scanned healthy : Nat) (entries : List AuditCleanupEntry) : String :=
  toString scanned ++ " proposed scanned; " ++ toString healthy
    ++ " healthy; criteria counts: under_eligible "
    ++ toString (criterionCount entries .underEligible) ++ ", noise "
    ++ toString (criterionCount entries .noise) ++ ", duplicate "
    ++ toString (criterionCount entries .duplicate) ++ ", stale "
    ++ toString (criterionCount entries .stale) ++ "."

def cleanupCard (workspaceId now : String) (origin : CleanupOrigin) (scanned : Nat)
    (entries : List AuditCleanupEntry) : Recommendation where
  assessment := none
  id := origin.id
  workspaceId := workspaceId
  chainId := "cleanup:v1"
  chainDepth := origin.chainDepth
  recommendationType := .cleanup
  status := .proposed
  priority := .medium
  title := "Recommendation cleanup"
  summary := cleanupImprovement entries
  reason := [cleanupReason scanned (scanned - entries.length) entries]
  evidence := []
  repositoryEvidence := []
  knowledgeEvidence := []
  sourceSessionIds := []
  targetSessionId := none
  suggestedHarnessId := none
  suggestedModel := none
  suggestedWorkingDirectory := none
  suggestedPrompt := none
  confidence := .medium
  requiresApproval := true
  dedupeKey := "cleanup:v1"
  createdAt := origin.createdAt
  updatedAt := now
  expiresAt := none
  workflowImprovement :=
    { proposedImprovement := cleanupImprovement entries
      targetSurface := .documentation
      observationIds := []
      recurrenceCount := 0
      affectedSessionIds := []
      impact := .medium
      expectedBenefit := "Fewer stale cards, less noise in the recommendations panel."
      supersedesRecommendationId := origin.supersedes
      dismissalWatermark := none }
  completionPacket := none
  audit := some
    { entries := entries
      scanned := scanned
      healthy := scanned - entries.length
      staleAfterDays := staleAfterDays }
  rollupMemberIds := []
  rollupMemberDedupeKeys := []
  rollupGeneration := none
  rolledUpBy := none
  proposedChange := none

def buildCleanupCard (digests : Digests) (chrono : Chrono) (recommendations : List Recommendation)
    (workspaceId now : String) (prior : Option Recommendation) : Option Recommendation :=
  let entries := auditEntries chrono recommendations ((chrono.parse now).getD chrono.utcNow)
  if entries.isEmpty then none
  else some (cleanupCard workspaceId now (cleanupOrigin digests recommendations now prior)
    (recommendations.filter audited).length entries)

/-! ## Storing the card -/

def replaceById (record : Recommendation) (records : List Recommendation) : List Recommendation :=
  records.map (fun old => if old.id == record.id then record else old)

def proposedCleanup (existing : List Recommendation) : Option Recommendation :=
  existing.find? (fun recommendation =>
    recommendation.recommendationType == .cleanup && recommendation.status == .proposed)

/-- `run_recommendation_audit` on the records of a store: the card and the records
it leaves. -/
def runRecommendationAudit (digests : Digests) (chrono : Chrono) (context : EvaluationContext)
    (records : Records) : Except StoreError (Option Recommendation × Records) := do
  readRecords digests records
  let existing := listing records
  let prior := proposedCleanup existing
  match buildCleanupCard digests chrono existing context.workspaceId context.now prior, prior with
  | none, none => return (none, records)
  | none, some priorCard => do
    let retired := { priorCard with status := .superseded, updatedAt := context.now }
    let next ← applyRecords digests records [(retired.id, some priorCard)]
      (replaceById retired existing)
    return (none, next)
  | some card, _ => do
    let next ← applyRecords digests records [(card.id, prior)]
      (existing.filter (fun recommendation => recommendation.id != card.id) ++ [card])
    return (some card, next)

/-! ## Carrying it out -/

structure SkippedEntry where
  id : String
  status : RecommendationStatus
  deriving DecidableEq, Repr

/-- The loop of `accept_cleanup_recommendation`. -/
structure CleanupProgress where
  next : List Recommendation
  expected : List String
  skipped : List SkippedEntry

def cleanupEntry (cardId now : String) (progress : CleanupProgress) (entry : AuditCleanupEntry) :
    Except StoreError CleanupProgress :=
  match findById progress.next entry.id with
  | none => .error .invalidTransition
  | some current =>
    if current.status != .proposed then
      .ok { progress with skipped := progress.skipped ++ [⟨current.id, current.status⟩] }
    else match entry.criteria with
      | [] => .error .invalidTransition
      | criterion :: _ =>
        let dismissed := dismissedRecord current now
          (some ("audit:" ++ criterion.key ++ "@" ++ cardId))
        .ok { progress with
          next := replaceById dismissed progress.next
          expected := progress.expected ++ [dismissed.id] }

/-- The card may be accepted. -/
def acceptableCleanup (card : Recommendation) : Option AuditCleanup :=
  if card.recommendationType != .cleanup || card.status != .proposed then none else card.audit

/-- `accept_cleanup_recommendation` on the records of a store. -/
def acceptCleanupRecommendation (digests : Digests) (id now : String) (records : Records) :
    Except StoreError (Option (Recommendation × List SkippedEntry) × Records) := do
  readRecords digests records
  let existing := listing records
  match findById existing id with
  | none => return (none, records)
  | some card =>
    match acceptableCleanup card with
    | none => .error .invalidTransition
    | some audit => do
      let progress ← audit.entries.foldlM (cleanupEntry card.id now) ⟨existing, [], []⟩
      let completed := { card with status := .completed, updatedAt := now }
      let next ← applyRecords digests records
        (expectedRecords records (progress.expected ++ [completed.id]))
        (replaceById completed progress.next)
      return (some (completed, progress.skipped), next)

end Orkworksd.Taskmaster
