import Orkworksd.Taskmaster.Store

/- The workflow evaluator (`taskmaster/mod.rs`, `evaluate_workflow_improvements`)
   and the projection of a rollup parent (`session_application.rs`,
   `taskmaster/rollup.rs`).

   Qualifying observations are grouped by fingerprint; every group of at least two
   is a family with its own dedupe key. A family's proposal depends on the stored
   records through three of them only: its `prior` record (the newest of the
   family), the prior as an active rollup member, and its terminal predecessor.
   The source visits the groups in the order of a hash map and sorts the proposals
   by dedupe key, which no two families share (`families_dedupeKey_nodup`), so the
   order in which they are visited does not show. -/
namespace Orkworksd.Taskmaster
open Lib

/-- The double nearest to 0.6. -/
def confidenceFloor : ℚ := 5404319552844595 / 2 ^ 53

/-- The double nearest to 0.8. -/
def highConfidence : ℚ := 3602879701896397 / 2 ^ 52

/-- `max` of an iterator of impacts. -/
def maxImpact : List Impact → Option Impact
  | [] => none
  | impact :: rest => some (rest.foldl (fun a b => if a.rank ≤ b.rank then b else a) impact)

/-- An observation counts towards a proposal. -/
def observationQualifies (observation : WorkflowObservation) : Bool :=
  !decide (observation.confidence < confidenceFloor)
    && !(observation.reportedImpact == .high && decide (observation.confidence < highConfidence))

/-! ## Families -/

structure Family where
  fingerprint : String
  qualifying : List WorkflowObservation
  deriving DecidableEq

/-- The qualifying observations of one fingerprint, by sequence. -/
def family (observations : List WorkflowObservation) (fingerprint : String) : Family where
  fingerprint := fingerprint
  qualifying := sortBy (fun a b => a.sequence ≤ b.sequence) (observations.filter (fun observation =>
    observationQualifies observation && observation.fingerprint == fingerprint))

def families (observations : List WorkflowObservation) : List Family :=
  ((observations.filter observationQualifies).map (·.fingerprint)).dedup.map (family observations)

def targetSurface : ObservationKind → TargetSurface
  | .missingContext | .assumption | .correction => .instructions
  | .verificationGap => .test
  | .repetition | .obstacle | .workaround => .tooling

def targetSurfaceName : TargetSurface → String
  | .instructions => "instructions"
  | .skill => "skill"
  | .test => "test"
  | .tooling => "tooling"
  | .documentation => "documentation"

def improvementPrefix : ObservationKind → String
  | .repetition => "Automate or remove repeated work"
  | .obstacle => "Remove or document the obstacle"
  | .missingContext => "Add missing repository context"
  | .assumption => "Make the required assumption explicit"
  | .correction => "Prevent this recurring correction"
  | .workaround => "Replace the workaround with a supported path"
  | .verificationGap => "Add reliable verification for"

def expectedBenefit : TargetSurface → String
  | .instructions => "Agents receive the required context before acting."
  | .skill => "Agents follow one repeatable workflow for this task."
  | .test => "The workflow gains repeatable verification."
  | .tooling => "Agents spend less time on avoidable manual recovery."
  | .documentation => "The supported workflow becomes discoverable."

/-- The surface of the first qualifying observation. -/
def Family.surface (family : Family) : TargetSurface :=
  match family.qualifying with
  | [] => .tooling
  | observation :: _ => targetSurface observation.kind

def Family.dedupeKey (family : Family) : String :=
  "improve_workflow:v1:" ++ targetSurfaceName family.surface ++ ":" ++ family.fingerprint

/-- The family has enough observations to be evaluated. -/
def Family.eligible (family : Family) : Bool := 2 ≤ family.qualifying.length

/-! ## What a family finds in the store -/

/-- `max_by` on `updated_at`: the last of the newest. -/
def newestOf : List Recommendation → Option Recommendation
  | [] => none
  | recommendation :: rest =>
    some (rest.foldl (fun best next =>
      if next.updatedAt < best.updatedAt then best else next) recommendation)

/-- The newest record of a dedupe key. -/
def prior (existing : List Recommendation) (dedupeKey : String) : Option Recommendation :=
  newestOf (existing.filter (fun recommendation => recommendation.dedupeKey == dedupeKey))

/-- A rolled-up record whose parent is proposed and lists it. -/
def isActiveMember (existing : List Recommendation) (recommendation : Recommendation) : Bool :=
  recommendation.status == .rolledUp
    && recommendation.rolledUpBy.any (fun parentId => existing.any (fun parent =>
      parent.id == parentId && parent.status == .proposed
        && parent.rollupMemberIds.contains recommendation.id))

def activeRollupMember (existing : List Recommendation) (prior : Option Recommendation) :
    Option Recommendation :=
  prior.filter (isActiveMember existing)

/-- The parent of a rolled-up record that reached a final status. -/
def terminalParent (existing : List Recommendation) (recommendation : Recommendation) :
    Option Recommendation :=
  if recommendation.status == .rolledUp then
    recommendation.rolledUpBy.bind (fun parentId => existing.find? (fun parent =>
      parent.id == parentId && finalStatus parent.status))
  else none

/-- What a record is succeeded as: its terminal parent, or itself when it is no
longer active. -/
def predecessorOf (existing : List Recommendation) (recommendation : Recommendation) :
    Option Recommendation :=
  match terminalParent existing recommendation with
  | some parent => some parent
  | none =>
    if finalStatus recommendation.status || recommendation.status == .rolledUp then
      some recommendation
    else none

def terminalPredecessor (existing : List Recommendation) (prior : Option Recommendation) :
    Option Recommendation :=
  (prior.bind (predecessorOf existing)).filter (fun recommendation =>
    (activeRollupMember existing prior).all (fun active => active.id != recommendation.id))

/-- The three records a family's proposal depends on. -/
structure Lineage where
  prior : Option Recommendation
  active : Option Recommendation
  predecessor : Option Recommendation

def lineage (existing : List Recommendation) (dedupeKey : String) : Lineage where
  prior := prior existing dedupeKey
  active := activeRollupMember existing (prior existing dedupeKey)
  predecessor := terminalPredecessor existing (prior existing dedupeKey)

namespace Lineage

/-- The prior record, when the proposal keeps its id. -/
def kept (lineage : Lineage) : Option Recommendation :=
  lineage.prior.filter (fun recommendation => recommendation.status == .proposed
    || lineage.active.any (fun active => active.id == recommendation.id))

/-- A prior record that is being worked on. -/
def busy (lineage : Lineage) : Bool :=
  lineage.prior.any (fun recommendation =>
    !(recommendation.status == .proposed || recommendation.status == .dismissed)
      && lineage.predecessor.isNone && lineage.active.isNone)

/-- The evidence of what is being succeeded. -/
def terminalEvidence (lineage : Lineage) : Option (List WorkflowObservationEvidence) :=
  lineage.predecessor.map (fun predecessor =>
    match lineage.prior with
    | some prior => if prior.status == .rolledUp then prior.evidence else predecessor.evidence
    | none => predecessor.evidence)

end Lineage

def hasEvidence (evidence : List WorkflowObservationEvidence) (observationId : String) : Bool :=
  evidence.any (fun item => item.observationId == observationId)

/-- Everything that qualifies was known when the predecessor ended. -/
def Family.nothingNew (family : Family) (lineage : Lineage) : Bool :=
  lineage.terminalEvidence.any (fun evidence =>
    !family.qualifying.any (fun observation => !hasEvidence evidence observation.id))

/-! ## Evidence -/

def evidenceOf (observation : WorkflowObservation) : WorkflowObservationEvidence where
  observationId := observation.id
  sequence := observation.sequence
  sessionId := observation.sessionId
  kind := observation.kind
  description := observation.description
  evidence := observation.evidence
  problemArea := observation.problemArea
  reportedImpact := observation.reportedImpact
  source := observation.source
  confidence := observation.confidence
  observedAt := observation.observedAt

/-- Every observation that is not evidence yet is appended. -/
def addObservations : List WorkflowObservationEvidence → List WorkflowObservation →
    List WorkflowObservationEvidence
  | evidence, [] => evidence
  | evidence, observation :: rest =>
    if hasEvidence evidence observation.id then addObservations evidence rest
    else addObservations (evidence ++ [evidenceOf observation]) rest

def Family.evidence (family : Family) (lineage : Lineage) : List WorkflowObservationEvidence :=
  sortBy (fun a b => a.sequence ≤ b.sequence)
    (addObservations ((lineage.kept.map (·.evidence)).getD []) family.qualifying)

/-- The evidence after a dismissal is not enough to propose again. -/
def dismissalHolds (watermark : Option DismissalWatermark)
    (evidence : List WorkflowObservationEvidence) : Bool :=
  let later := evidence.filter (fun item =>
    watermark.any (fun mark => mark.dismissedThroughSequence < item.sequence))
  let impactIncreased := watermark.any (fun mark =>
    evidence.any (fun item => mark.highestImpact.rank < item.reportedImpact.rank))
  let newSession := watermark.any (fun mark =>
    later.any (fun item => !mark.affectedSessionIds.contains item.sessionId))
  !impactIncreased && !(2 ≤ later.length && newSession)

def Family.stillDismissed (family : Family) (lineage : Lineage) : Bool :=
  lineage.prior.any (fun recommendation => recommendation.status == .dismissed
    && dismissalHolds recommendation.workflowImprovement.dismissalWatermark
      (family.evidence lineage))

/-! ## The proposal -/

/-- `sort` and `dedup`. -/
def sortedUnique (texts : List String) : List String := (sortStrings texts).destutter (· ≠ ·)

def uniqueSessionIds (evidence : List WorkflowObservationEvidence) : List String :=
  sortedUnique (evidence.map (·.sessionId))

def sourceMix (evidence : List WorkflowObservationEvidence) : String :=
  match evidence.any (·.source == .agent), evidence.any (·.source == .peon) with
  | true, true => "agent and peon"
  | true, false => "agent"
  | false, true => "peon"
  | false, false => "unknown"

def evidenceImpact (evidence : List WorkflowObservationEvidence) : Option Impact :=
  maxImpact (evidence.map (·.reportedImpact))

def evidenceConfidence (evidence : List WorkflowObservationEvidence) : RecommendationConfidence :=
  if evidence.all (fun item => decide (highConfidence ≤ item.confidence)) then .high else .medium

def pluralSuffix (n : Nat) : String := if n == 1 then "" else "s"

def proposalReason (evidence : List WorkflowObservationEvidence) : String :=
  let sessions := (uniqueSessionIds evidence).length
  toString evidence.length ++ " qualifying observation" ++ pluralSuffix evidence.length
    ++ " across " ++ toString sessions ++ " session" ++ pluralSuffix sessions
    ++ "; highest impact " ++ ((evidenceImpact evidence).getD .low).debug
    ++ "; sources: " ++ sourceMix evidence ++ "."

/-- `Improvement prefix: description` of the first evidence. -/
def proposedImprovement (evidence : List WorkflowObservationEvidence) : String :=
  match evidence with
  | [] => ""
  | item :: _ => improvementPrefix item.kind ++ ": " ++ item.description

/-- The id of a new record. -/
def newId (digests : Digests) (dedupeKey : String) (observationIds : List String) : String :=
  "recommendation-" ++ digests.stableId dedupeKey observationIds

/-- `u64::saturating_add(1)` on a generation that may be missing. -/
def nextGeneration (generation : Option Nat) : Nat := saturatingSucc (generation.getD 0)

/-- `u32::saturating_add(1)`. -/
def nextDepth (depth : Nat) : Nat := min (depth + 1) (2 ^ 32 - 1)

/-- The surroundings of an evaluation. -/
structure EvaluationContext where
  workspaceId : String
  now : String

def Family.proposal (digests : Digests) (context : EvaluationContext) (family : Family) (lineage : Lineage) :
    Recommendation :=
  let evidence := family.evidence lineage
  let impact := (evidenceImpact evidence).getD .low
  let observationIds := evidence.map (·.observationId)
  { assessment := none
    id := (lineage.kept.map (·.id)).getD (newId digests family.dedupeKey observationIds)
    workspaceId := context.workspaceId
    chainId := (lineage.prior.map (·.chainId)).getD family.dedupeKey
    chainDepth := (lineage.prior.map (fun recommendation =>
      if lineage.predecessor.isSome then nextDepth recommendation.chainDepth
      else recommendation.chainDepth)).getD 0
    recommendationType := .improveWorkflow
    status := if lineage.active.isSome then .rolledUp else .proposed
    priority := impact
    title := "Improve " ++ targetSurfaceName family.surface
    summary := proposedImprovement evidence
    reason := [proposalReason evidence]
    evidence := evidence
    repositoryEvidence := (lineage.kept.map (·.repositoryEvidence)).getD []
    knowledgeEvidence := (lineage.kept.map (·.knowledgeEvidence)).getD []
    sourceSessionIds := uniqueSessionIds evidence
    targetSessionId := none
    suggestedHarnessId := none
    suggestedModel := none
    suggestedWorkingDirectory := none
    suggestedPrompt := none
    confidence := evidenceConfidence evidence
    requiresApproval := false
    dedupeKey := family.dedupeKey
    createdAt := (lineage.kept.map (·.createdAt)).getD context.now
    updatedAt := context.now
    expiresAt := none
    workflowImprovement :=
      { proposedImprovement := proposedImprovement evidence
        targetSurface := family.surface
        observationIds := observationIds
        recurrenceCount := evidence.length
        affectedSessionIds := uniqueSessionIds evidence
        impact := impact
        expectedBenefit := expectedBenefit family.surface
        supersedesRecommendationId := match lineage.active with
          | some active => active.workflowImprovement.supersedesRecommendationId
          | none => lineage.predecessor.map (·.id)
        dismissalWatermark := none }
    completionPacket := none
    audit := none
    rollupMemberIds := []
    rollupMemberDedupeKeys := []
    rollupGeneration := match lineage.predecessor with
      | some predecessor => some (nextGeneration predecessor.rollupGeneration)
      | none => lineage.active.bind (·.rollupGeneration)
    rolledUpBy := lineage.active.bind (·.rolledUpBy)
    proposedChange := none }

/-- The loop body of the evaluator. -/
def evaluateFamily (digests : Digests) (context : EvaluationContext) (family : Family) (lineage : Lineage) :
    Option Recommendation :=
  if !family.eligible then none
  else if lineage.busy then none
  else if family.nothingNew lineage then none
  else if family.stillDismissed lineage then none
  else some (family.proposal digests context lineage)

/-- The family is evaluated and proposes. -/
def Family.due (family : Family) (lineage : Lineage) : Bool :=
  family.eligible && !lineage.busy && !family.nothingNew lineage && !family.stillDismissed lineage

/-- The id of a new record of the family. -/
def Family.freshId (digests : Digests) (family : Family) (lineage : Lineage) : String :=
  newId digests family.dedupeKey ((family.evidence lineage).map (·.observationId))

def evaluateWorkflowImprovements (digests : Digests) (context : EvaluationContext)
    (observations : List WorkflowObservation) (existing : List Recommendation) :
    List Recommendation :=
  sortBy (fun left right => left.dedupeKey ≤ right.dedupeKey)
    ((families observations).filterMap (fun family =>
      evaluateFamily digests context family (lineage existing family.dedupeKey)))

/-! ## Rollup parents -/

def maxParentEvidenceEntries : Nat := 64
def maxParentEvidenceBytes : Nat := 128 * 1024

def truncateChars (value : String) (limit : Nat) : String := String.ofList (value.toList.take limit)

def boundedEvidence (item : WorkflowObservationEvidence) : WorkflowObservationEvidence :=
  { item with
    observationId := truncateChars item.observationId 256
    sessionId := truncateChars item.sessionId 256
    description := truncateChars item.description 500
    evidence := truncateChars item.evidence 2000
    problemArea := item.problemArea.map (fun value => truncateChars value 120)
    observedAt := truncateChars item.observedAt 64 }

/-- `evidence_order` is less: higher impact first, then later, then by id. -/
def evidenceBefore (left right : WorkflowObservationEvidence) : Bool :=
  right.reportedImpact.rank < left.reportedImpact.rank
    || (left.reportedImpact.rank == right.reportedImpact.rank
      && (right.sequence < left.sequence
        || (left.sequence == right.sequence && left.observationId < right.observationId)))

/-- One item of the `unique` map: the entry that comes first is kept. -/
def insertEvidence (unique : TextMap WorkflowObservationEvidence)
    (item : WorkflowObservationEvidence) : TextMap WorkflowObservationEvidence :=
  let bounded := boundedEvidence item
  match unique[bounded.observationId]? with
  | none => unique.insert bounded.observationId bounded
  | some existing =>
    if evidenceBefore bounded existing then unique.insert bounded.observationId bounded else unique

/-- The loop that fills the projection; `size` is the length of the JSON text. -/
def fillProjection (size : List WorkflowObservationEvidence → Nat) :
    List WorkflowObservationEvidence → List WorkflowObservationEvidence →
      List WorkflowObservationEvidence
  | projection, [] => projection
  | projection, candidate :: rest =>
    if projection.length == maxParentEvidenceEntries then projection
    else if maxParentEvidenceBytes < size (projection ++ [candidate]) then
      fillProjection size projection rest
    else fillProjection size (projection ++ [candidate]) rest

def projectParentEvidence (size : List WorkflowObservationEvidence → Nat)
    (evidence : List WorkflowObservationEvidence) : List WorkflowObservationEvidence :=
  fillProjection size [] (sortBy (fun left right => !evidenceBefore right left)
    (values (evidence.foldl insertEvidence ∅)))

def refreshRollupParentProjection (size : List WorkflowObservationEvidence → Nat)
    (parent : Recommendation) (members : List Recommendation) (now : String) : Recommendation :=
  let allEvidence := members.flatMap (·.evidence)
  let projected := projectParentEvidence size allEvidence
  let sourceSessionIds := sortedUnique (members.flatMap (fun member =>
    member.sourceSessionIds ++ member.evidence.map (·.sessionId)))
  let priority := (evidenceImpact allEvidence).getD parent.priority
  { parent with
    evidence := projected
    sourceSessionIds := sourceSessionIds
    priority := priority
    confidence := evidenceConfidence allEvidence
    updatedAt := now
    workflowImprovement :=
      { parent.workflowImprovement with
        observationIds := projected.map (·.observationId)
        recurrenceCount := allEvidence.length
        affectedSessionIds := sourceSessionIds
        impact := priority } }

end Orkworksd.Taskmaster
