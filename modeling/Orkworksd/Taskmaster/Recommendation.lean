import Mathlib.Data.List.Sort
import Mathlib.Data.String.Basic
import Mathlib.Data.Rat.Defs

/- The data model of Taskmaster recommendations (`taskmaster/mod.rs`,
   `taskmaster/completion.rs` and the provenance types they use), field by field.

   Timestamps are the RFC 3339 texts the source compares as strings. A confidence
   is an `f64` that is only ever compared with two literals, so it is a rational
   number and the literals are the exact values of the two doubles. Digests are
   functions of the bytes hashed (`Digests`): SHA-256, the standard library's
   default hasher and the JSON texts they run over are not part of this
   repository. -/
namespace Orkworksd.Taskmaster

abbrev Bytes := List UInt8

def utf8 (text : String) : Bytes := text.toUTF8.data.toList

inductive ObservationKind where
  | repetition | obstacle | missingContext | assumption | correction | workaround
  | verificationGap
  deriving DecidableEq, Repr

inductive Impact where
  | low | medium | high
  deriving DecidableEq, Repr

def Impact.rank : Impact → Nat
  | .low => 0
  | .medium => 1
  | .high => 2

/-- The `Debug` text of an impact. -/
def Impact.debug : Impact → String
  | .low => "Low"
  | .medium => "Medium"
  | .high => "High"

inductive ObservationSource where
  | agent | peon
  deriving DecidableEq, Repr

structure WorkflowObservation where
  id : String
  sequence : Nat
  sessionId : String
  observedAt : String
  kind : ObservationKind
  description : String
  evidence : String
  problemArea : Option String
  reportedImpact : Impact
  source : ObservationSource
  confidence : ℚ
  fingerprint : String
  deriving DecidableEq

inductive RecommendationType where
  | improveWorkflow | cleanup
  deriving DecidableEq, Repr

inductive AuditCriterion where
  | underEligible | noise | duplicate | stale
  deriving DecidableEq, Repr

def AuditCriterion.key : AuditCriterion → String
  | .underEligible => "under_eligible"
  | .noise => "noise"
  | .duplicate => "duplicate"
  | .stale => "stale"

structure AuditCleanupEntry where
  id : String
  title : String
  criteria : List AuditCriterion
  deriving DecidableEq, Repr

structure AuditCleanup where
  entries : List AuditCleanupEntry
  scanned : Nat
  healthy : Nat
  staleAfterDays : Nat
  deriving DecidableEq, Repr

inductive RecommendationStatus where
  | proposed | accepted | executing | completed | dismissed | rolledUp | superseded | expired
  | failed
  deriving DecidableEq, Repr

inductive RecommendationConfidence where
  | low | medium | high
  deriving DecidableEq, Repr

inductive TargetSurface where
  | instructions | skill | test | tooling | documentation
  deriving DecidableEq, Repr

structure DismissalWatermark where
  dismissedAt : String
  dismissedThroughSequence : Nat
  observationIds : List String
  qualifyingCount : Nat
  highestImpact : Impact
  affectedSessionIds : List String
  reason : Option String
  deriving DecidableEq, Repr

structure WorkflowObservationEvidence where
  observationId : String
  sequence : Nat
  sessionId : String
  kind : ObservationKind
  description : String
  evidence : String
  problemArea : Option String
  reportedImpact : Impact
  source : ObservationSource
  confidence : ℚ
  observedAt : String
  deriving DecidableEq

structure RepositoryEvidence where
  path : String
  sha256 : String
  excerpt : String
  observedAt : String
  deriving DecidableEq, Repr

structure KnowledgeEvidence where
  pageId : String
  title : String
  status : String
  bundleVersion : String
  sha256 : String
  excerpt : String
  deriving DecidableEq, Repr

/-- `readiness_focus::RecommendationReadinessReference`, its source flattened. -/
structure RecommendationReadinessReference where
  snapshotId : String
  rubricDigest : String
  conceptIds : List String
  deriving DecidableEq, Repr

inductive ContextLevel where
  | sessionObservations | workflowContext | sourceCode
  deriving DecidableEq, Repr

structure AssessmentProvenance where
  readinessReference : Option RecommendationReadinessReference
  accessRedacted : Bool
  id : String
  inputFingerprint : String
  contextLevel : ContextLevel
  excludedPaths : List String
  deriving DecidableEq, Repr

inductive TargetAction where
  | edit | create
  deriving DecidableEq, Repr

structure ChangeTarget where
  path : String
  action : TargetAction
  instruction : String
  sensitive : Bool
  deriving DecidableEq, Repr

structure ProposedChange where
  summary : String
  targets : List ChangeTarget
  verification : String
  deriving DecidableEq, Repr

/-! ## Completion packets -/

inductive PacketAttribution where
  | unambiguous | inconclusive
  deriving DecidableEq, Repr

inductive PacketReadiness where
  | verificationNeeded | reviewReady | findingsNeedFix | readyForUserReview
  deriving DecidableEq, Repr

inductive CompletionVerificationResult where
  | passed | failed | notRun
  deriving DecidableEq, Repr

inductive CompletionReviewOutcome where
  | noFindings | findings
  deriving DecidableEq, Repr

inductive CompletionActionRole where
  | review | verification | fix | userReview
  deriving DecidableEq, Repr

inductive CompletionEvidenceIssueKind where
  | missing | conflict
  deriving DecidableEq, Repr

structure CompletionEvidenceProvenance where
  sourceSessionId : String
  workspaceId : String
  workspaceSnapshotId : String
  observedAt : String
  deriving DecidableEq, Repr

structure CompletionChangeSubject where
  workspaceId : String
  scope : String
  snapshotId : String
  attribution : PacketAttribution
  changedPaths : List String
  deriving DecidableEq, Repr

structure CompletionVerification where
  command : String
  result : CompletionVerificationResult
  applicableRevision : String
  observedAt : String
  deriving DecidableEq, Repr

structure CompletionReview where
  reviewerSessionId : String
  reviewerIdentity : String
  independent : Bool
  outcome : CompletionReviewOutcome
  applicableRevision : String
  observedAt : String
  deriving DecidableEq, Repr

structure CompletionEvidenceIssue where
  kind : CompletionEvidenceIssueKind
  detail : String
  deriving DecidableEq, Repr

structure CompletionAction where
  prompt : String
  model : Option String
  scope : String
  role : CompletionActionRole
  deriving DecidableEq, Repr

structure CompletionApproval where
  approvedAt : String
  approver : String
  revision : Nat
  evidenceFingerprint : String
  actionFingerprint : String
  idempotencyKey : String
  deriving DecidableEq, Repr

structure CompletionPacketLineage where
  packetId : String
  revision : Nat
  evidenceFingerprint : String
  supersededAt : String
  deriving DecidableEq, Repr

structure CompletionPacket where
  schemaVersion : Nat
  evidenceVersion : Nat
  packetId : String
  sourceSessionId : String
  observedAt : String
  provenance : CompletionEvidenceProvenance
  subject : CompletionChangeSubject
  verification : Option CompletionVerification
  review : Option CompletionReview
  missingEvidence : List CompletionEvidenceIssue
  conflictingEvidence : List CompletionEvidenceIssue
  action : CompletionAction
  readiness : PacketReadiness
  revision : Nat
  evidenceFingerprint : String
  approval : Option CompletionApproval
  supersedesPacketId : Option String
  lineage : List CompletionPacketLineage
  completionIdempotencyKey : Option String
  deriving DecidableEq, Repr

/-- The part of a packet its evidence fingerprint covers. -/
structure CompletionEvidence where
  evidenceVersion : Nat
  sourceSessionId : String
  observedAt : String
  provenance : CompletionEvidenceProvenance
  subject : CompletionChangeSubject
  verification : Option CompletionVerification
  review : Option CompletionReview
  missingEvidence : List CompletionEvidenceIssue
  conflictingEvidence : List CompletionEvidenceIssue
  deriving DecidableEq, Repr

/-! ## Recommendations -/

structure WorkflowImprovement where
  proposedImprovement : String
  targetSurface : TargetSurface
  observationIds : List String
  recurrenceCount : Nat
  affectedSessionIds : List String
  impact : Impact
  expectedBenefit : String
  supersedesRecommendationId : Option String
  dismissalWatermark : Option DismissalWatermark
  deriving DecidableEq, Repr

structure Recommendation where
  assessment : Option AssessmentProvenance
  id : String
  workspaceId : String
  chainId : String
  chainDepth : Nat
  recommendationType : RecommendationType
  status : RecommendationStatus
  priority : Impact
  title : String
  summary : String
  reason : List String
  evidence : List WorkflowObservationEvidence
  repositoryEvidence : List RepositoryEvidence
  knowledgeEvidence : List KnowledgeEvidence
  sourceSessionIds : List String
  targetSessionId : Option String
  suggestedHarnessId : Option String
  suggestedModel : Option String
  suggestedWorkingDirectory : Option String
  suggestedPrompt : Option String
  confidence : RecommendationConfidence
  requiresApproval : Bool
  dedupeKey : String
  createdAt : String
  updatedAt : String
  expiresAt : Option String
  workflowImprovement : WorkflowImprovement
  completionPacket : Option CompletionPacket
  audit : Option AuditCleanup
  rollupMemberIds : List String
  rollupMemberDedupeKeys : List String
  rollupGeneration : Option Nat
  rolledUpBy : Option String
  proposedChange : Option ProposedChange
  deriving DecidableEq

/-- A recommendation's provenance says that its evidence was redacted. -/
def Recommendation.redacted (recommendation : Recommendation) : Bool :=
  recommendation.assessment.any (·.accessRedacted)

/-- The digests and third-party parsers the store and the evaluator use. -/
structure Digests where
  /-- Lower-case hexadecimal SHA-256. -/
  sha256 : Bytes → String
  /-- The sixteen hexadecimal digits of `stable_id`. -/
  stableId : String → List String → String
  /-- `serde_json::to_vec` of the fingerprinted parts of a packet. -/
  evidenceJson : CompletionEvidence → Bytes
  actionJson : CompletionAction → Bytes
  /-- `uuid::Uuid::parse_str` succeeds. -/
  isUuid : String → Bool

/-- `sort_by`, which is stable. -/
def sortBy {α : Type} (before : α → α → Bool) (items : List α) : List α :=
  items.insertionSort (fun a b => before a b = true)

/-- `sort` of a vector of strings. -/
def sortStrings (texts : List String) : List String := sortBy (fun a b => a ≤ b) texts

def stableRollupId (digests : Digests) (memberRecommendationIds : List String) : String :=
  "rollup:" ++ digests.sha256
    ((sortStrings memberRecommendationIds).flatMap (fun id => utf8 id ++ [0]))

end Orkworksd.Taskmaster
