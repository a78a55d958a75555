import Orkworksd.Taskmaster.Recommendation
import Orkworksd.Lib.Text

/- Completion packets (`taskmaster/completion.rs`), the redacted form that
   `taskmaster/assessment_access.rs` accepts, and `validate_recommendation` of
   `taskmaster/store.rs`. Every check is in the order of the source and fails with
   its text. -/
namespace Orkworksd.Taskmaster
open Orkworksd.Lib.Text (isControl isWhitespace)

/-- `store::StoreError`. The busy lock and the operating system's own failures
other than a missing file are not modelled. -/
inductive StoreError where
  | io (message : String)
  | json (message : String)
  | invalidTransition
  | staleExpectedHash (id : String)
  | stalePacket (id : String)
  | graphInvariant (message : String)
  | recovery (message : String)
  deriving DecidableEq, Repr

def StoreError.display : StoreError → String
  | .io message => message
  | .json message => message
  | .invalidTransition => "recommendation is not a proposed workflow improvement"
  | .staleExpectedHash id => "recommendation file changed since it was read: " ++ id
  | .stalePacket id => "completion packet changed since it was read: " ++ id
  | .graphInvariant message => "recommendation graph invariant: " ++ message
  | .recovery message => "recommendation recovery unavailable: " ++ message

def maxPacketIdChars : Nat := 128
def maxScopeChars : Nat := 512
def maxPaths : Nat := 512
def maxLineage : Nat := 16

def isAsciiHexdigit (b : UInt8) : Bool :=
  (0x30 ≤ b && b ≤ 0x39) || (0x41 ≤ b && b ≤ 0x46) || (0x61 ≤ b && b ≤ 0x66)

def validText (value : String) (max : Nat) : Bool :=
  !value.isEmpty && value.length ≤ max && value.toList.all (fun c => !isControl c)

def validFingerprint (value : String) : Bool :=
  (utf8 value).length == 64 && (utf8 value).all isAsciiHexdigit

/-- `if condition { return Err(message.into()) }`. -/
def refuse (condition : Bool) (message : String) : Except String Unit :=
  if condition then .error message else .ok ()

namespace CompletionPacket

def computedEvidenceFingerprint (digests : Digests) (packet : CompletionPacket) : String :=
  digests.sha256 (digests.evidenceJson
    { evidenceVersion := packet.evidenceVersion
      sourceSessionId := packet.sourceSessionId
      observedAt := packet.observedAt
      provenance := packet.provenance
      subject := packet.subject
      verification := packet.verification
      review := packet.review
      missingEvidence := packet.missingEvidence
      conflictingEvidence := packet.conflictingEvidence })

def actionFingerprint (digests : Digests) (packet : CompletionPacket) : String :=
  digests.sha256 (digests.actionJson packet.action)

def derivedReadiness (packet : CompletionPacket) : PacketReadiness :=
  if packet.subject.attribution == .inconclusive || !packet.missingEvidence.isEmpty
      || !packet.conflictingEvidence.isEmpty
      || !packet.verification.any (fun v =>
        v.result == .passed && v.applicableRevision == packet.subject.snapshotId) then
    .verificationNeeded
  else match packet.review with
    | none => .reviewReady
    | some review =>
      if review.outcome == .findings && review.applicableRevision == packet.subject.snapshotId then
        .findingsNeedFix
      else if review.outcome == .noFindings && review.independent
          && review.reviewerSessionId != packet.sourceSessionId
          && review.applicableRevision == packet.subject.snapshotId then
        .readyForUserReview
      else .verificationNeeded

/-- The bounded text fields `validate` checks first: name, value and limit. -/
def textFields (packet : CompletionPacket) : List (String × String × Nat) :=
  [("packet_id", packet.packetId, maxPacketIdChars),
   ("source_session_id", packet.sourceSessionId, 256),
   ("observed_at", packet.observedAt, 128),
   ("provenance.source_session_id", packet.provenance.sourceSessionId, 256),
   ("provenance.workspace_id", packet.provenance.workspaceId, 256),
   ("provenance.workspace_snapshot_id", packet.provenance.workspaceSnapshotId, 256),
   ("provenance.observed_at", packet.provenance.observedAt, 128),
   ("subject.workspace_id", packet.subject.workspaceId, 256),
   ("subject.scope", packet.subject.scope, maxScopeChars),
   ("subject.snapshot_id", packet.subject.snapshotId, 256),
   ("action.prompt", packet.action.prompt, 8192),
   ("action.scope", packet.action.scope, maxScopeChars)]

def checkTextFields : List (String × String × Nat) → Except String Unit
  | [] => .ok ()
  | (name, value, max) :: fields => do
    refuse (!validText value max) ("completion packet field " ++ name ++ " is invalid")
    checkTextFields fields

/-- The lineage entries are well formed and their revisions strictly increase. -/
def checkLineage : Nat → List CompletionPacketLineage → Except String Unit
  | _, [] => .ok ()
  | previousRevision, entry :: lineage => do
    refuse (!validText entry.packetId maxPacketIdChars || entry.revision == 0
        || entry.revision ≤ previousRevision || !validFingerprint entry.evidenceFingerprint
        || !validText entry.supersededAt 128) "completion packet lineage is invalid"
    checkLineage entry.revision lineage

def validate (digests : Digests) (packet : CompletionPacket) (workspaceId : String) :
    Except String Unit := do
  refuse (packet.schemaVersion != 1) "unsupported completion packet schema version"
  refuse (packet.evidenceVersion != 1) "unsupported completion evidence version"
  checkTextFields packet.textFields
  refuse (packet.action.model.any (fun model => !validText model 256))
    "completion packet action model is invalid"
  refuse (packet.sourceSessionId != packet.provenance.sourceSessionId)
    "completion packet provenance source session does not match"
  refuse (packet.provenance.workspaceId != workspaceId || packet.subject.workspaceId != workspaceId
      || packet.provenance.workspaceSnapshotId != packet.subject.snapshotId)
    "completion packet is not scoped to this workspace snapshot"
  refuse (packet.subject.changedPaths.length > maxPaths
      || packet.subject.changedPaths.any (fun path => !validText path 1024))
    "completion packet changed paths are invalid"
  refuse (packet.revision == 0
      || packet.evidenceFingerprint != packet.computedEvidenceFingerprint digests)
    "completion packet evidence fingerprint is invalid"
  refuse (packet.readiness != packet.derivedReadiness)
    "completion packet readiness is not derived from its evidence"
  refuse (packet.verification.any (fun v => !validText v.command 4096
      || v.applicableRevision != packet.subject.snapshotId || !validText v.observedAt 128))
    "completion packet verification evidence is invalid"
  refuse (packet.review.any (fun review => !validText review.reviewerSessionId 256
      || !validText review.reviewerIdentity 256
      || review.applicableRevision != packet.subject.snapshotId
      || !validText review.observedAt 128))
    "completion packet review evidence is invalid"
  refuse (packet.supersedesPacketId.any (fun id =>
      !validText id maxPacketIdChars || id == packet.packetId))
    "completion packet supersession identity is invalid"
  refuse (packet.lineage.length > maxLineage) "completion packet lineage is too long"
  checkLineage 0 packet.lineage
  refuse (packet.lineage.getLast?.any (fun entry => packet.revision ≤ entry.revision)
      || packet.supersedesPacketId.isSome != !packet.lineage.isEmpty)
    "completion packet supersession lineage is invalid"
  refuse (packet.approval.any (fun approval => approval.revision != packet.revision
      || approval.evidenceFingerprint != packet.evidenceFingerprint
      || approval.actionFingerprint != packet.actionFingerprint digests
      || approval.approvedAt.isEmpty
      || !validText approval.approvedAt 128
      || !validText approval.approver 256
      || !validText approval.idempotencyKey 128
      || approval.idempotencyKey.toList.any isWhitespace))
    "completion packet approval is stale or malformed"
  refuse (packet.completionIdempotencyKey.any (fun key =>
      !validText key 128 || key.toList.any isWhitespace))
    "completion packet idempotency key is invalid"

end CompletionPacket

def redactedSummary : String := "Assessment evidence was redacted after context access changed."

/-- The packet with its digests made good: what is left of it to validate once its
text was redacted. -/
def CompletionPacket.structural (digests : Digests) (packet : CompletionPacket) :
    CompletionPacket :=
  let fingerprint := packet.computedEvidenceFingerprint digests
  let action := packet.actionFingerprint digests
  let approval := packet.approval.map (fun approval =>
    { approval with evidenceFingerprint := fingerprint, actionFingerprint := action })
  { packet with evidenceFingerprint := fingerprint, approval := approval }

/-- `assessment_access::validate_redacted_packet`: the fingerprints of a redacted
packet are checked for their shape only, the rest as usual. -/
def validateRedactedPacket (digests : Digests) (packet : CompletionPacket) (workspace : String) :
    Except String Unit := do
  refuse (packet.action.prompt != redactedSummary || packet.action.scope != redactedSummary
      || packet.subject.scope != redactedSummary
      || packet.verification.any (fun v => v.command != redactedSummary)
      || (packet.missingEvidence ++ packet.conflictingEvidence).any (fun issue =>
        issue.detail != redactedSummary)
      || !validFingerprint packet.evidenceFingerprint
      || packet.approval.any (fun approval =>
        approval.evidenceFingerprint != packet.evidenceFingerprint
          || !validFingerprint approval.actionFingerprint))
    "Redacted assessment packet history is invalid"
  (packet.structural digests).validate digests workspace

structure CompletionMutationRequest where
  packetRevision : Nat
  evidenceFingerprint : String
  idempotencyKey : String
  deriving DecidableEq, Repr

def CompletionMutationRequest.validate (request : CompletionMutationRequest) :
    Except String Unit :=
  refuse (request.packetRevision == 0 || !validFingerprint request.evidenceFingerprint
      || !validText request.idempotencyKey 128 || request.idempotencyKey.toList.any isWhitespace)
    "completion mutation request is invalid"

/-- `readiness_rubric::CONCEPT_IDS`. -/
def conceptIds : List String :=
  ["context-discovery", "progressive-disclosure", "instruction-scoping",
   "architecture-awareness", "domain-knowledge", "environment-reproducibility",
   "tool-accessibility", "task-decomposition", "verification", "observability",
   "change-safety", "feedback-loops", "durable-memory", "human-oversight"]

def RecommendationReadinessReference.validate (digests : Digests)
    (reference : RecommendationReadinessReference) : Except String Unit := do
  refuse (!digests.isUuid reference.snapshotId || (utf8 reference.rubricDigest).length != 64
      || !(utf8 reference.rubricDigest).all (fun b =>
        (0x30 ≤ b && b ≤ 0x39) || (0x61 ≤ b && b ≤ 0x66)))
    "Readiness reference is invalid"
  refuse (reference.conceptIds.isEmpty || reference.conceptIds.length > 3
      || reference.conceptIds.any (fun id => !Taskmaster.conceptIds.contains id)
      || !decide reference.conceptIds.Nodup)
    "Readiness capabilities are invalid"

/-- `map_err(StoreError::GraphInvariant)`. -/
def asGraphInvariant {α : Type} (result : Except String α) : Except StoreError α :=
  result.mapError .graphInvariant

/-- The statuses in which a packet must carry an approval. -/
def approvalRequired : RecommendationStatus → Bool
  | .executing | .accepted | .completed => true
  | _ => false

/-- The packet part of `validate_recommendation`. -/
def validatePacket (digests : Digests) (recommendation : Recommendation)
    (packet : CompletionPacket) : Except StoreError Unit := do
  asGraphInvariant (if recommendation.redacted then
      validateRedactedPacket digests packet recommendation.workspaceId
    else packet.validate digests recommendation.workspaceId)
  if recommendation.sourceSessionIds != [packet.sourceSessionId] then
    .error (.graphInvariant "completion packet must have one matching source session")
  else if packet.approval.isSome != approvalRequired recommendation.status
      || packet.completionIdempotencyKey.isSome
        != decide (recommendation.status = .completed) then
    .error (.graphInvariant
      "completion packet approval does not match recommendation lifecycle")
  else .ok ()

/-- `store::validate_recommendation`. -/
def validateRecommendation (digests : Digests) (recommendation : Recommendation) :
    Except StoreError Unit := do
  match recommendation.assessment.bind (·.readinessReference) with
  | some reference => asGraphInvariant (reference.validate digests)
  | none => .ok ()
  match recommendation.completionPacket with
  | some packet => validatePacket digests recommendation packet
  | none => .ok ()

end Orkworksd.Taskmaster
