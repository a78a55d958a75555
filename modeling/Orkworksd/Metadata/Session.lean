import Mathlib.Algebra.Order.Ring.Int
import Mathlib.Data.List.Basic

/- The canonical session record of `metadata.rs` with its provenance
   (`metadata/provenance.rs`), read by every module of this directory.

   Statuses, phases, lifecycles, attention values and sources are the texts the
   source compares: a record read from disk may hold any text there, and the rules
   that follow are about which texts they recognise. Timestamps are RFC 3339 texts
   that these functions copy and never compare. -/
namespace Orkworksd.Metadata

/-- An `f64` by its bit pattern. -/
structure F64 where
  bits : BitVec 64
  deriving DecidableEq, Repr

namespace F64

def magnitude (x : F64) : Nat := x.bits.toNat % 2 ^ 63

def infinity : Nat := 0x7ff0000000000000

def isFinite (x : F64) : Bool := x.magnitude < infinity

def isNan (x : F64) : Bool := infinity < x.magnitude

/-- The order of the values that are numbers: the two zeros are equal. -/
def rank (x : F64) : Int := if 2 ^ 63 ≤ x.bits.toNat then -x.magnitude else x.magnitude

/-- The comparisons of the source, all false on a NaN. -/
def eq (x y : F64) : Bool := !x.isNan && !y.isNan && x.rank == y.rank
def lt (x y : F64) : Bool := !x.isNan && !y.isNan && decide (x.rank < y.rank)
def le (x y : F64) : Bool := !x.isNan && !y.isNan && decide (x.rank ≤ y.rank)

def zero : F64 := ⟨0⟩
def one : F64 := ⟨0x3ff0000000000000⟩
def negOne : F64 := ⟨0xbff0000000000000⟩

def optionEq : Option F64 → Option F64 → Bool
  | none, none => true
  | some x, some y => x.eq y
  | _, _ => false

end F64

structure MetadataProvenance where
  attentionSource : Option String := none
  attentionConfidence : Option F64 := none
  attentionOrigin : Option String := none
  attentionUpdatedAt : Option String := none
  workMetadataUpdatedAt : Option String := none
  summarySource : Option String := none
  summaryConfidence : Option F64 := none
  summaryObservedAt : Option String := none
  deriving DecidableEq, Repr

structure ObservedStatusSnapshotMetadata where
  attentionOrigin : Option String
  value : Option String
  source : String
  confidence : Option F64
  observedAt : Option String
  deriving DecidableEq, Repr

inductive LabelSource where
  | placeholder | initialPrompt | terminalInput | peon | codex | user | legacy
  deriving DecidableEq, Repr

def LabelSource.isAutomatic : LabelSource → Bool
  | .placeholder | .initialPrompt | .terminalInput | .peon | .codex => true
  | .user | .legacy => false

/-- `session_location::WorktreeBinding`. -/
structure WorktreeBinding where
  root : String
  commonDir : String
  deriving DecidableEq, Repr

inductive PlanSource where
  | legacy | userSelected | agentReported | hookReported | terminalFallback | gitHistory
  | gitWorktree
  deriving DecidableEq, Repr

structure PlanReference where
  worktreeRoot : Option String
  relativePath : String
  source : PlanSource
  deriving DecidableEq, Repr

inductive StartupFailureCode where
  | codexHelpFailed | codexHelpTimeout | codexHelpOversized | ptyOpenFailed | processSpawnFailed
  | terminalIoFailed | instructionSetupFailed | nativeStartupFailed | startupInternalFailed
  deriving DecidableEq, Repr

inductive StartupOperation where
  | launch | resume
  deriving DecidableEq, Repr

structure StartupFailure where
  code : StartupFailureCode
  operation : StartupOperation
  occurredAt : String
  deriving DecidableEq, Repr

inductive ResumeState where
  | available | unavailable
  deriving DecidableEq, Repr

inductive ResumeStrategy where
  | exact | latestCwd | latestRepo | none
  deriving DecidableEq, Repr

/-- `harness::ResumeMemory`. -/
structure ResumeMemory where
  state : ResumeState
  preferredStrategy : ResumeStrategy
  harnessSessionId : Option String
  latestFallback : Bool
  lastSeenAt : Option String
  deriving DecidableEq, Repr

structure ResumeOption where
  strategy : ResumeStrategy
  label : String
  available : Bool
  preferred : Bool
  reason : Option String
  deriving DecidableEq, Repr

/-- `SessionMetadata`, every field of the stored record. The defaults are those serde
fills in for a field that the stored text leaves out. -/
structure SessionMetadata where
  provenance : MetadataProvenance := {}
  id : String
  label : String
  labelSource : LabelSource := .legacy
  labelFromInitialPrompt : Bool := false
  labelContextRefined : Bool := false
  workspace : String
  task : String
  harness : String := ""
  model : String := ""
  cwd : String
  worktreeBinding : Option WorktreeBinding := none
  status : String
  workPhase : String := "unknown"
  lifecyclePhase : String := ""
  lifecycle : String := "alive"
  attention : Option String := none
  planPath : Option PlanReference := none
  connectivity : String := "online"
  terminalOutcome : Option String := none
  startupFailure : Option StartupFailure := none
  pendingTerminalStatus : Option String := none
  observedStatus : Option String := none
  endingObservedStatusSnapshot : Option ObservedStatusSnapshotMetadata := none
  finalObservedStatusSnapshot : Option ObservedStatusSnapshotMetadata := none
  summary : Option String := none
  nextAction : Option String := none
  needsUserInput : Option Bool := none
  detectedQuestion : Option String := none
  suggestedOptions : Option (List String) := none
  blockerDescription : Option String := none
  failedCommand : Option String := none
  failedTest : Option String := none
  capacityHints : Option (List String) := none
  peonLastInference : Option String := none
  providerId : Option String := none
  providerLabel : Option String := none
  providerModel : Option String := none
  providerState : Option String := none
  createdAt : String
  lastActivity : String
  lastOutputAt : Option String := none
  metadataSource : String
  metadataConfidence : F64
  repoRoot : Option String := none
  branch : Option String := none
  dirty : Option Bool := none
  changedFiles : Option Nat := none
  isWorktree : Option Bool := none
  resume : Option ResumeMemory := none
  resumeOptions : List ResumeOption := []
  harnessSessionIdSource : Option String := none
  harnessSessionIdConfidence : Option F64 := none
  harnessSessionIdCapturedAt : Option String := none
  resumedFrom : Option String := none
  lastUserInput : Option String := none

namespace SessionMetadata

/-- `attention_source`: a record without its own source falls back on the metadata's. -/
def attentionSource (m : SessionMetadata) : String :=
  m.provenance.attentionSource.getD m.metadataSource

def attentionConfidence (m : SessionMetadata) : F64 :=
  m.provenance.attentionConfidence.getD m.metadataConfidence

def attentionOrigin (m : SessionMetadata) : String :=
  m.provenance.attentionOrigin.getD "legacy_unknown"

/-- `resume.as_ref().and_then(|r| r.harness_session_id.as_deref())`. -/
def harnessRoot (m : SessionMetadata) : Option String := m.resume.bind (·.harnessSessionId)

end SessionMetadata

def canonicalAttention : Option String → Option String
  | none => none
  | some raw =>
    if raw == "waiting_for_input" then some "needs_you"
    else if raw == "stale" || raw == "done" then some "idle"
    else if ["working", "idle", "blocked", "failed", "capped"].contains raw then some raw
    else none

def workPhases : List String := ["ideation", "implementation", "review", "debugging", "unknown"]

def normalizeWorkPhase (raw : String) : String :=
  if workPhases.contains raw then raw else "unknown"

/-- `matches!(status, "ended" | "killed" | "error")`, the terminal statuses. -/
def isTerminal (status : String) : Bool := status == "ended" || status == "killed" || status == "error"

end Orkworksd.Metadata
