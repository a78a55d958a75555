import Orkworksd.Taskmaster.RollupMembers

/- Applying a provider's answer to the store: `parse_provider_response` and
   `apply_model_output_parsed` of `taskmaster/evaluator.rs`.

   An answer enriches proposed recommendations with the knowledge pages it cites, proposes new
   ones from repository facts, and clusters the supplied families. What serde reads is given
   (`RawModelOutput`); the answer is applied to the store on the level of records, as in
   `Refresh`: the records themselves stand for the hashes of their files.

   What the call reads besides the store (the runtime's generation, the workspace, the facts
   collected again, the targets resolved on disk) is in `ApplyContext`. -/
namespace Orkworksd.Taskmaster
open Lib
open Orkworksd.Lib.Text (isControl trim)

/-! ## Answers -/

structure ModelEnrichment where
  dedupeKey : String
  knowledgePageIds : List String
  deriving DecidableEq

structure ModelProposal where
  targetSurface : String
  title : String
  summary : String
  repositoryFactHashes : List String
  knowledgePageIds : List String
  deriving DecidableEq

inductive RollupSection where
  | notRequested
  | valid (clusters : List RollupCluster)
  | degraded (code : String)
  deriving DecidableEq

structure ModelOutput where
  enrichments : List ModelEnrichment
  proposals : List ModelProposal
  rollups : RollupSection

/-- The `rollups` value: its length when it is an array, and its clusters when they can be
read. -/
structure RawRollups where
  arrayLength : Option Nat
  clusters : Option (List ModelRollupCluster)

structure RawModelOutput where
  enrichments : List ModelEnrichment
  proposals : List ModelProposal
  rollups : Option RawRollups

def ChangeValidationError.code : ChangeValidationError → String
  | .textOutOfBounds => "proposed_change_text"
  | .targetCountOutOfBounds => "proposed_change_targets"
  | .pathInvalid => "proposed_change_path"
  | .duplicatePath => "proposed_change_path"
  | .pathOutOfScope => "proposed_change_scope"
  | .serializedTooLarge => "proposed_change_size"

def RollupValidationError.code : RollupValidationError → String
  | .tooManyFamilies => "rollup_input_out_of_bounds"
  | .tooManyObservations => "rollup_input_out_of_bounds"
  | .inputTooLarge => "rollup_input_out_of_bounds"
  | .responseTooLarge => "rollup_response_out_of_bounds"
  | .tooManyClusters => "rollup_response_out_of_bounds"
  | .invalidProposedChange error => error.code
  | _ => "rollup_cluster_invalid"

/-- The rollup section of an answer to supplied snapshots. -/
def rollupSection (codec : RollupCodec) (snapshots : List RollupFamilySnapshot) :
    Option RawRollups → RollupSection
  | none => .degraded "rollups_missing"
  | some value =>
    match value.clusters with
    | none => .degraded "rollups_malformed"
    | some clusters =>
      match validateRollupClusters codec snapshots clusters with
      | .ok valid => .valid valid
      | .error error => .degraded error.code

/-- `parse_provider_response`; `raw` is `none` when the output is no such JSON text. -/
def parseProviderResponse (codec : RollupCodec) (outputLength : Nat) (raw : Option RawModelOutput)
    (snapshots : Option (List RollupFamilySnapshot)) : Except String ModelOutput := do
  refuseIf (decide (maxRollupResponseBytes < outputLength))
    "Taskmaster provider response is too large"
  match raw with
  | none => .error "Taskmaster provider returned invalid JSON"
  | some raw => do
    match snapshots with
    | some snapshots =>
      return { enrichments := raw.enrichments
               proposals := raw.proposals
               rollups := rollupSection codec snapshots raw.rollups }
    | none => do
      refuseIf (raw.rollups.any (fun value => value.arrayLength.all (fun items => items != 0)))
        "Taskmaster response contained rollups without supplied families"
      return { enrichments := raw.enrichments
               proposals := raw.proposals
               rollups := .notRequested }

/-! ## What the call reads -/

structure KnowledgePage where
  id : String
  title : String
  status : String
  content : String
  sha256 : String
  deriving DecidableEq

structure KnowledgeBundle where
  version : String
  pages : List KnowledgePage

/-- The parts of the rollup request that are used. -/
structure SuppliedRollup where
  workspaceInstance : Nat
  generation : Nat
  snapshots : List RollupFamilySnapshot

structure ApplyContext where
  codec : RollupCodec
  size : List WorkflowObservationEvidence → Nat
  knowledge : Option KnowledgeBundle
  facts : List RepositoryEvidence
  suppliedRecommendations : List Recommendation
  rollupRequest : Option SuppliedRollup
  /-- `with_current_evaluation` before the call and when it applies the answer. -/
  current : Bool
  currentStill : Bool
  /-- The workspace, when it is still the one of the evaluation. -/
  workspace : Option RollupWorkspace
  /-- The facts collected again; `none` when that fails. -/
  currentFacts : Option (List RepositoryEvidence)
  /-- `resolve_targets_on_disk`, with the code of its error. -/
  resolveTargets : ProposedChange → Except String ProposedChange
  now : String

namespace ApplyContext
variable (context : ApplyContext)

/-- `page_map`; of several pages with one id the last is in the map. -/
def page (id : String) : Option KnowledgePage :=
  ((context.knowledge.map (·.pages)).getD []).reverse.find? (fun page => page.id == id)

def fact (hash : String) : Option RepositoryEvidence :=
  context.facts.reverse.find? (fun fact => fact.sha256 == hash)

end ApplyContext

def parseTargetSurface (value : String) : Option TargetSurface :=
  if value = "instructions" then some .instructions
  else if value = "skill" then some .skill
  else if value = "test" then some .test
  else if value = "tooling" then some .tooling
  else if value = "documentation" then some .documentation
  else none

/-- A title or a summary that is empty, too long or has a control character. -/
def refusedText (value : String) (limit : Nat) : Bool :=
  (trim value.toList).isEmpty || value.toList.any isControl || decide (limit < value.length)

def refusedEnrichment (context : ApplyContext) (enrichment : ModelEnrichment) : Bool :=
  enrichment.dedupeKey.isEmpty
    || !((context.suppliedRecommendations.filter (fun item => item.status == .proposed)).take
      16).any (fun item => item.dedupeKey == enrichment.dedupeKey)
    || decide (8 < enrichment.knowledgePageIds.length)
    || enrichment.knowledgePageIds.any (fun id => (context.page id).isNone)

def refusedProposal (context : ApplyContext) (proposal : ModelProposal) : Bool :=
  (parseTargetSurface proposal.targetSurface).isNone
    || refusedText proposal.title 240 || refusedText proposal.summary 1000
    || proposal.repositoryFactHashes.isEmpty || decide (32 < proposal.repositoryFactHashes.length)
    || decide (8 < proposal.knowledgePageIds.length)
    || proposal.repositoryFactHashes.any (fun hash => (context.fact hash).isNone)
    || proposal.knowledgePageIds.any (fun id => (context.page id).isNone)

/-- The first check of the call. -/
def refusedOutput (context : ApplyContext) (model : ModelOutput) : Bool :=
  decide (16 < model.enrichments.length) || model.enrichments.any (refusedEnrichment context)
    || decide (3 < model.proposals.length) || model.proposals.any (refusedProposal context)

/-! ## Enrichments -/

def pageEvidence (version : String) (page : KnowledgePage) : KnowledgeEvidence where
  pageId := page.id
  title := page.title
  status := page.status
  bundleVersion := version
  sha256 := page.sha256
  excerpt := truncateChars page.content 500

def cites (page : KnowledgePage) (evidence : KnowledgeEvidence) : Bool :=
  evidence.pageId == page.id && evidence.sha256 == page.sha256

/-- One turn of the loop over the cited pages. -/
def citePage (context : ApplyContext) (knowledge : List KnowledgeEvidence) (pageId : String) :
    List KnowledgeEvidence :=
  match context.page pageId with
  | none => knowledge
  | some page =>
    if knowledge.any (cites page) then knowledge
    else knowledge ++ [pageEvidence ((context.knowledge.map (·.version)).getD "") page]

def enrichedRecommendation (recommendations : List Recommendation) (dedupeKey : String) :
    Option Recommendation :=
  recommendations.find? (fun recommendation =>
    recommendation.dedupeKey == dedupeKey && recommendation.status == .proposed)

/-- One turn of the loop over the enrichments: each starts from the record that was read. -/
def enrichmentUpdate (context : ApplyContext) (recommendations : List Recommendation)
    (enrichment : ModelEnrichment) : Option Recommendation :=
  (enrichedRecommendation recommendations enrichment.dedupeKey).map (fun recommendation =>
    { recommendation with
      knowledgeEvidence :=
        enrichment.knowledgePageIds.foldl (citePage context) recommendation.knowledgeEvidence
      updatedAt := context.now })

/-! ## Proposals -/

/-- `short_hash`: eight bytes in hexadecimal. -/
def shortHash (digests : Digests) (value : String) : String :=
  String.ofList ((digests.sha256 (utf8 value)).toList.take 16)

/-- The id of the record of a proactive proposal. -/
def proactiveId (digests : Digests) (dedupeKey : String) : String :=
  "recommendation-" ++ shortHash digests dedupeKey

/-- The cited facts by their hashes, each once. -/
def proposalFacts (context : ApplyContext) (proposal : ModelProposal) : List RepositoryEvidence :=
  (sortBy (fun left right => left.sha256 ≤ right.sha256)
    (proposal.repositoryFactHashes.filterMap context.fact)).destutter
      (fun left right => left.sha256 ≠ right.sha256)

def proposalDedupeKey (surface : TargetSurface) (facts : List RepositoryEvidence) : String :=
  "proactive:v1:" ++ targetSurfaceName surface ++ ":"
    ++ String.intercalate ":" (facts.map (·.sha256))

def proposedRecommendation (digests : Digests) (context : ApplyContext) (workspacePath : String)
    (proposal : ModelProposal) (surface : TargetSurface) (facts : List RepositoryEvidence)
    (dedupeKey : String) : Recommendation where
  assessment := none
  id := proactiveId digests dedupeKey
  workspaceId := workspacePath
  chainId := dedupeKey
  chainDepth := 0
  recommendationType := .improveWorkflow
  status := .proposed
  priority := .low
  title := proposal.title
  summary := proposal.summary
  reason := ["A bounded repository fact supplied to Taskmaster supports this experimental hypothesis."]
  evidence := []
  repositoryEvidence := facts
  knowledgeEvidence := (proposal.knowledgePageIds.filterMap context.page).map
    (pageEvidence ((context.knowledge.map (·.version)).getD ""))
  sourceSessionIds := []
  targetSessionId := none
  suggestedHarnessId := none
  suggestedModel := none
  suggestedWorkingDirectory := none
  suggestedPrompt := none
  confidence := .low
  requiresApproval := false
  dedupeKey := dedupeKey
  createdAt := context.now
  updatedAt := context.now
  expiresAt := none
  workflowImprovement :=
    { proposedImprovement := proposal.summary
      targetSurface := surface
      observationIds := []
      recurrenceCount := 0
      affectedSessionIds := []
      impact := .low
      expectedBenefit := "Hypothesis based on the cited repository facts."
      supersedesRecommendationId := none
      dismissalWatermark := none }
  completionPacket := none
  audit := none
  rollupMemberIds := []
  rollupMemberDedupeKeys := []
  rollupGeneration := none
  rolledUpBy := none
  proposedChange := none

/-- What the loop over the proposals carries: `seen_dedupe_keys`, the records and the count of
suppressed proposals. -/
structure ProposalProgress where
  seen : List String
  records : List Recommendation
  suppressed : Nat

/-- One turn of the loop over the proposals. -/
def propose (digests : Digests) (context : ApplyContext) (workspacePath : String)
    (progress : ProposalProgress) (proposal : ModelProposal) : ProposalProgress :=
  match parseTargetSurface proposal.targetSurface with
  | none => progress
  | some surface =>
    let facts := proposalFacts context proposal
    let dedupeKey := proposalDedupeKey surface facts
    if progress.seen.contains dedupeKey then
      { progress with suppressed := nextDepth progress.suppressed }
    else
      { progress with
        seen := dedupeKey :: progress.seen
        records := progress.records ++
          [proposedRecommendation digests context workspacePath proposal surface facts dedupeKey] }

/-! ## Applying -/

def isRollupRecord (recommendation : Recommendation) : Bool :=
  !recommendation.rollupMemberIds.isEmpty || recommendation.rolledUpBy.isSome

/-- `rollup_inputs_match_locked` on records. -/
def rollupInputsMatch (digests : Digests) (context : ApplyContext) (workspace : RollupWorkspace)
    (request : SuppliedRollup) (records : Records) : Bool :=
  workspace.instanceId == request.workspaceInstance
    && (readRecords digests records).isOk
    && request.snapshots.all (snapshotMatches digests context.codec (listing records))

/-- What the loops over the clusters read. -/
def clusterInputs (context : ApplyContext) (workspace : RollupWorkspace) (request : SuppliedRollup)
    (clusters : List RollupCluster) (legacyUpdates : List Recommendation) (records : Records) :
    RollupInputs where
  workspacePath := workspace.path
  now := context.now
  generation := request.generation
  size := context.size
  suppliedSnapshots := request.snapshots
  clusters := clusters
  current := projected (listing records) legacyUpdates
  currentHashes := ∅

/-- `apply_rollup_clusters_locked` on records: `none` where the source returns `false`. -/
def applyRollupClusters (digests : Digests) (context : ApplyContext) (workspace : RollupWorkspace)
    (request : SuppliedRollup) (clusters : List RollupCluster)
    (legacyUpdates : List Recommendation) (records : Records) : Option Records :=
  if !rollupInputsMatch digests context workspace request records then none
  else do
    let graph ← rollupGraph digests
      (clusterInputs context workspace request clusters legacyUpdates records) legacyUpdates
    if graph.expected.isEmpty then some records
    else (applyRecords digests records (expectedRecords records graph.expected.keys)
      (values graph.working)).toOption

/-- `put` for each update; the first failure ends the loop. -/
def putEach (digests : Digests) : List Recommendation → Records → Records × Bool
  | [], records => (records, true)
  | update :: rest, records =>
    match putResult digests update records with
    | .error _ => (records, false)
    | .ok next => putEach digests rest next

structure ApplyDisposition where
  created : Nat
  suppressed : Nat
  degraded : Option String
  deriving DecidableEq

/-- The clusters with their targets resolved, or the code of a degraded section. -/
def resolvedRollups (context : ApplyContext) :
    RollupSection → Except String (List RollupCluster)
  | .notRequested => .ok []
  | .degraded code => .error code
  | .valid clusters => clusters.mapM (fun cluster =>
      (context.resolveTargets cluster.proposedChange).map (fun change =>
        { cluster with proposedChange := change }))

def RollupSection.degradedCode : RollupSection → Option String
  | .degraded code => some code
  | _ => none

/-- The clusters whose parent is not among the records read. -/
def newlyCreatedParents (digests : Digests) (recommendations : List Recommendation)
    (clusters : List RollupCluster) : Nat :=
  (clusters.filter (fun cluster => !recommendations.any (fun recommendation =>
    recommendation.id == stableRollupId digests cluster.memberRecommendationIds))).length

/-- `u32::saturating_add`. -/
def saturatingAdd (a b : Nat) : Nat := min (a + min b (2 ^ 32 - 1)) (2 ^ 32 - 1)

/-- The end of the call: the updates are stored, with the clusters when there are any. -/
def applyUpdates (digests : Digests) (context : ApplyContext) (workspace : RollupWorkspace)
    (rollups : RollupSection) (updates : List Recommendation) (counts : ApplyDisposition)
    (records : Records) : Records × Option ApplyDisposition :=
  match context.rollupRequest with
  | none =>
    let stored := putEach digests updates records
    (stored.1, if stored.2 then some counts else none)
  | some request =>
    match resolvedRollups context rollups with
    | .error code =>
      if !rollupInputsMatch digests context workspace request records then (records, none)
      else
        let stored := putEach digests (updates.filter (fun item => !isRollupRecord item)) records
        (stored.1, if stored.2 then some { counts with degraded := some code } else none)
    | .ok clusters =>
      match applyRollupClusters digests context workspace request clusters updates records with
      | none => (records, none)
      | some next =>
        (next, some { counts with
          created := saturatingAdd counts.created
            (newlyCreatedParents digests (listing records) clusters) })

/-- The records the loop over the proposals creates. -/
def proposalProgress (digests : Digests) (context : ApplyContext) (workspacePath : String)
    (recommendations : List Recommendation) (proposals : List ModelProposal) : ProposalProgress :=
  proposals.foldl (propose digests context workspacePath)
    ⟨recommendations.map (·.dedupeKey), [], 0⟩

/-- A fact the model saw is no longer there. -/
def factsMoved (facts currentFacts : List RepositoryEvidence) : Bool :=
  facts.any (fun fact => !currentFacts.any (fun current =>
    current.path == fact.path && current.sha256 == fact.sha256))

/-- `apply_model_output_parsed`: the records it leaves, and what it returns. -/
def applyModelOutputParsed (digests : Digests) (context : ApplyContext) (model : ModelOutput)
    (records : Records) : Records × Option ApplyDisposition :=
  if refusedOutput context model || !context.current || !context.currentStill then (records, none)
  else match context.workspace with
    | none => (records, none)
    | some workspace =>
      if context.currentFacts.all (factsMoved context.facts)
          || !(readRecords digests records).isOk then (records, none)
      else
        let enriched := model.enrichments.filterMap (enrichmentUpdate context (listing records))
        let proposed := proposalProgress digests context workspace.path (listing records)
          model.proposals
        applyUpdates digests context workspace model.rollups (enriched ++ proposed.records)
          { created := proposed.records.length
            suppressed := proposed.suppressed
            degraded := model.rollups.degradedCode } records

end Orkworksd.Taskmaster
