import Orkworksd.Taskmaster.Evaluate

/- Semantic rollups: the snapshots of the families a model is asked to cluster,
   and the check of the clusters it answers (`taskmaster/rollup.rs`), with the
   change each cluster proposes (`taskmaster/proposed_change.rs`).

   JSON texts enter through their bytes or their length only (`RollupCodec`), and
   so does `str::to_lowercase`, whose Unicode tables are not repeated here. The
   length of an array or an object is computed from the lengths of its parts. The
   checks of a proposed change against the file system are not part of this
   module. -/
namespace Orkworksd.Taskmaster
open Lib
open Orkworksd.Lib.Text (isControl isWhitespace trim)

def maxRollupFamilies : Nat := 32
def maxRollupObservations : Nat := 96
def maxRollupSourceSessions : Nat := 8
def maxRollupInputBytes : Nat := 128 * 1024
def maxRollupResponseBytes : Nat := 64 * 1024
def maxRollupClusters : Nat := 8
def minRollupMembers : Nat := 2
def maxRollupMembers : Nat := 8
def maxRollupTitleChars : Nat := 240
def maxRollupSummaryChars : Nat := 1000

structure RollupFamilySnapshot where
  recommendationId : String
  dedupeKey : String
  targetSurface : TargetSurface
  problemArea : Option String
  title : String
  summary : String
  representativeEvidence : List WorkflowObservationEvidence
  sourceSessionIds : List String
  activeParentId : Option String
  activeParentMemberIds : List String
  evidenceSnapshotHash : String
  deriving DecidableEq

structure ModelChangeTarget where
  path : String
  action : TargetAction
  instruction : String
  deriving DecidableEq

structure ModelProposedChange where
  summary : String
  targets : List ModelChangeTarget
  verification : String
  deriving DecidableEq

structure ModelRollupCluster where
  memberRecommendationIds : List String
  targetSurface : TargetSurface
  title : String
  summary : String
  proposedChange : ModelProposedChange
  deriving DecidableEq

structure RollupCluster where
  memberRecommendationIds : List String
  targetSurface : TargetSurface
  title : String
  summary : String
  proposedChange : ProposedChange
  deriving DecidableEq

/-- The errors `validate_proposed_change` returns. -/
inductive ChangeValidationError where
  | textOutOfBounds | targetCountOutOfBounds | pathInvalid | pathOutOfScope | duplicatePath
  | serializedTooLarge
  deriving DecidableEq, Repr

inductive RollupValidationError where
  | tooManyFamilies | tooManyObservations | inputTooLarge | responseTooLarge
  | unknownMemberId (id : String)
  | emptyCluster | duplicateCluster
  | duplicateMemberId (id : String)
  | tooFewMembers | tooManyMembers | tooManyClusters
  | overlappingMember (id : String)
  | mismatchedTargetSurface
  | notProposed (id : String)
  | generatedTextOutOfBounds (field : String) (limit : Nat)
  | invalidProposedChange (error : ChangeValidationError)
  deriving DecidableEq, Repr

/-- The JSON texts of the values below, and `str::to_lowercase`. -/
structure RollupCodec where
  snapshot : RollupFamilySnapshot → Bytes
  /-- The length of a text as a JSON string. -/
  text : String → Nat
  modelChange : ModelProposedChange → Nat
  change : ProposedChange → Nat
  lowercase : String → String

/-- `if condition { return Err(error) }`. -/
def refuseIf {ε : Type} (condition : Bool) (error : ε) : Except ε Unit :=
  if condition then .error error else .ok ()

/-! ## Proposed changes -/

def sensitivePrefixes : List String :=
  [".claude/", ".codex/", ".opencode/", ".agents/", ".cursor/", ".vscode/", ".devcontainer/",
    ".husky/", ".githooks/", ".github/", ".cargo/", "scripts/"]

def sensitiveFileNames : List String :=
  [".mcp.json", ".gitattributes", ".gitmodules", "opencode.json", "apm.yml", "package.json",
    "cargo.toml", "build.rs", "makefile", "justfile", "dockerfile"]

def skillPrefixes : List String :=
  ["skills/", ".claude/skills/", ".agents/skills/", ".codex/skills/"]

def toolingPrefixes : List String :=
  ["scripts/", ".github/", ".husky/", ".githooks/", ".devcontainer/", ".vscode/", ".cargo/",
    ".claude/", ".codex/", ".opencode/", ".agents/", ".cursor/"]

def startsWithAny (starts : List String) (path : List Char) : Bool :=
  starts.any (fun start => start.toList.isPrefixOf path)

def endsWithAny (ends : List String) (path : List Char) : Bool :=
  ends.any (fun ending => ending.toList.isSuffixOf path)

/-- `to_ascii_lowercase`. -/
def asciiLowercase (text : String) : List Char := text.toList.map Char.toLower

/-- `split('/')`: the parts between slashes. -/
def segments (path : List Char) : List (List Char) := path.splitOn '/'

/-- The part after the last slash. -/
def fileName (path : List Char) : List Char := (segments path).getLastD []

def isSensitivePath (path : String) : Bool :=
  let lower := asciiLowercase path
  if startsWithAny skillPrefixes lower && endsWithAny [".md"] lower then false
  else startsWithAny sensitivePrefixes lower
    || (sensitiveFileNames.map String.toList).contains (fileName lower)

def isTestFileName (file : List Char) : Bool :=
  startsWithAny ["test_"] file
    || ["_test.", "_tests.", ".test.", ".spec."].any (fun marker =>
      decide (marker.toList <:+: file))

def isInScope (path : String) : Bool :=
  let lower := asciiLowercase path
  let file := fileName lower
  let dirs := (segments lower).dropLast
  (["agents.md", "claude.md", "gemini.md", ".cursorrules"].map String.toList).contains file
    || lower == ".github/copilot-instructions.md".toList
    || startsWithAny skillPrefixes lower
    || startsWithAny ["docs/", "specs/"] lower || endsWithAny [".md", ".mdx", ".rst", ".txt"] file
    || dirs.any (fun dir =>
      (["tests", "test", "__tests__", "spec"].map String.toList).contains dir)
    || isTestFileName file
    || startsWithAny toolingPrefixes lower
    || (["makefile", "justfile", "dockerfile"].map String.toList).contains file
    || (sensitiveFileNames.map String.toList).contains file
    || (dirs.isEmpty && endsWithAny [".json", ".yml", ".yaml", ".toml"] file)

def validateText (value : String) (limit : Nat) : Except ChangeValidationError Unit :=
  refuseIf ((trim value.toList).isEmpty || decide (limit < value.length)
      || value.toList.any (fun c => isControl c || c == '<' || c == '>'))
    .textOutOfBounds

def isReservedDeviceName (segment : List Char) : Bool :=
  let stem := ((segment.splitOn '.').headD []).map Char.toUpper
  (["CON", "PRN", "AUX", "NUL"].map String.toList).contains stem
    || ((utf8 (String.ofList stem)).length == 4
      && startsWithAny ["COM", "LPT"] stem
      && ((utf8 (String.ofList stem))[3]?).any (fun b => 0x31 ≤ b && b ≤ 0x39))

def validatePathSyntax (path : String) : Except ChangeValidationError Unit := do
  refuseIf (path.isEmpty || decide (260 < path.utf8ByteSize) || startsWithAny ["/"] path.toList)
    .pathInvalid
  refuseIf (path.toList.any (fun c =>
      isControl c || c == '\\' || c == ':' || c == '<' || c == '>'))
    .pathInvalid
  refuseIf ((segments path.toList).any (fun segment =>
      segment.isEmpty || segment == ".".toList || segment == "..".toList
        || endsWithAny [".", " "] segment
        || segment.map Char.toLower == ".git".toList
        || isReservedDeviceName segment))
    .pathInvalid

/-- The loop over the targets; `seen` holds the lower-case paths before. -/
def validateTargets (codec : RollupCodec) :
    List String → List ModelChangeTarget → Except ChangeValidationError (List ChangeTarget)
  | _, [] => .ok []
  | seen, target :: rest => do
    validateText target.instruction 160
    validatePathSyntax target.path
    refuseIf (!isInScope target.path) .pathOutOfScope
    refuseIf (seen.contains (codec.lowercase target.path)) .duplicatePath
    let targets ← validateTargets codec (codec.lowercase target.path :: seen) rest
    return { path := target.path, action := target.action, instruction := target.instruction
             sensitive := isSensitivePath target.path } :: targets

def validateProposedChange (codec : RollupCodec) (model : ModelProposedChange) :
    Except ChangeValidationError ProposedChange := do
  validateText model.summary 200
  validateText model.verification 200
  refuseIf (model.targets.isEmpty || decide (3 < model.targets.length)) .targetCountOutOfBounds
  let targets ← validateTargets codec [] model.targets
  let change : ProposedChange :=
    { summary := model.summary, targets := targets, verification := model.verification }
  refuseIf (decide (1536 < codec.change change)) .serializedTooLarge
  return change

/-! ## Snapshots of families -/

/-- `max_by`: the last of the greatest, where `less a b` says that `a` is before `b`. -/
def lastMax {α : Type} (less : α → α → Bool) : List α → Option α
  | [] => none
  | item :: rest => some (rest.foldl (fun best next => if less next best then best else next) item)

/-- The earliest item, the latest one and the one of highest impact. -/
def representativeEvidence (evidence : List WorkflowObservationEvidence) :
    List WorkflowObservationEvidence :=
  let ordered := sortBy (fun left right => left.sequence < right.sequence
    || (left.sequence == right.sequence && left.observationId ≤ right.observationId))
    (evidence.map boundedEvidence)
  let highestImpact := lastMax (fun left right =>
    left.reportedImpact.rank < right.reportedImpact.rank
      || (left.reportedImpact.rank == right.reportedImpact.rank
        && (left.sequence < right.sequence
          || (left.sequence == right.sequence && right.observationId < left.observationId))))
    ordered
  [ordered.getLast?, highestImpact].foldl (fun selected candidate =>
    match candidate with
    | none => selected
    | some candidate =>
      if selected.any (fun item => item.observationId == candidate.observationId) then selected
      else selected ++ [candidate]) ordered.head?.toList

def snapshotHash (digests : Digests) (codec : RollupCodec) (snapshot : RollupFamilySnapshot) :
    String :=
  digests.sha256 (codec.snapshot { snapshot with evidenceSnapshotHash := "" })

/-- `from_recommendation_with_active_parent`. -/
def familySnapshot (digests : Digests) (codec : RollupCodec) (recommendation : Recommendation)
    (activeParent : Option Recommendation) :
    Except RollupValidationError RollupFamilySnapshot :=
  if recommendation.status != .proposed then .error (.notProposed recommendation.id)
  else
    let evidence := representativeEvidence recommendation.evidence
    let snapshot : RollupFamilySnapshot :=
      { recommendationId := recommendation.id
        dedupeKey := recommendation.dedupeKey
        targetSurface := recommendation.workflowImprovement.targetSurface
        problemArea := (evidence.findSome? (·.problemArea)).map (fun value =>
          truncateChars value 120)
        title := truncateChars recommendation.title maxRollupTitleChars
        summary := truncateChars recommendation.summary maxRollupSummaryChars
        representativeEvidence := evidence
        sourceSessionIds :=
          (sortedUnique recommendation.sourceSessionIds).take maxRollupSourceSessions
        activeParentId := activeParent.map (·.id)
        activeParentMemberIds :=
          sortedUnique ((activeParent.map (·.rollupMemberIds)).getD [])
        evidenceSnapshotHash := "" }
    .ok { snapshot with evidenceSnapshotHash := snapshotHash digests codec snapshot }

/-! ## Clusters -/

/-- The length of a JSON array whose items have these lengths. -/
def arraySize (items : List Nat) : Nat := 2 + items.sum + (items.length - 1)

/-- The length of a JSON object with these keys and lengths of values. -/
def objectSize (fields : List (String × Nat)) : Nat :=
  arraySize (fields.map (fun field => field.1.length + 3 + field.2))

def snapshotsSize (codec : RollupCodec) (snapshots : List RollupFamilySnapshot) : Nat :=
  arraySize (snapshots.map (fun snapshot => (codec.snapshot snapshot).length))

def clusterSize (codec : RollupCodec) (cluster : ModelRollupCluster) : Nat :=
  objectSize [
    ("memberRecommendationIds", arraySize (cluster.memberRecommendationIds.map codec.text)),
    ("targetSurface", codec.text (targetSurfaceName cluster.targetSurface)),
    ("title", codec.text cluster.title),
    ("summary", codec.text cluster.summary),
    ("proposedChange", codec.modelChange cluster.proposedChange)]

def clustersSize (codec : RollupCodec) (clusters : List ModelRollupCluster) : Nat :=
  arraySize (clusters.map (clusterSize codec))

def validateGeneratedText (field value : String) (limit : Nat) :
    Except RollupValidationError Unit :=
  refuseIf ((trim value.toList).isEmpty || decide (limit < value.length)
      || value.toList.any isControl)
    (.generatedTextOutOfBounds field limit)

/-- The loop over `windows(2)` of the sorted members. -/
def refuseDuplicates : List String → Except RollupValidationError Unit
  | first :: second :: rest =>
    if first == second then .error (.duplicateMemberId first)
    else refuseDuplicates (second :: rest)
  | _ => .ok ()

/-- The map from recommendation ids to snapshots; the last one of an id stays. -/
def snapshotById (snapshots : List RollupFamilySnapshot) (id : String) :
    Option RollupFamilySnapshot :=
  snapshots.reverse.find? (fun snapshot => snapshot.recommendationId == id)

/-- The loop over the sorted members of a cluster; `seenMembers` are the members
of the clusters before and of this one so far. -/
def checkMembers (snapshots : List RollupFamilySnapshot) (surface : TargetSurface) :
    List String → List String → Except RollupValidationError (List String)
  | seenMembers, [] => .ok seenMembers
  | seenMembers, memberId :: rest =>
    match snapshotById snapshots memberId with
    | none => .error (.unknownMemberId memberId)
    | some snapshot =>
      if snapshot.targetSurface != surface then .error .mismatchedTargetSurface
      else if seenMembers.contains memberId then .error (.overlappingMember memberId)
      else checkMembers snapshots surface (memberId :: seenMembers) rest

/-- The members and the member sets of the clusters accepted so far. A set is its
sorted list. -/
structure SeenClusters where
  members : List String
  clusters : List (List String)

/-- The body of the loop over the clusters. -/
def validateCluster (codec : RollupCodec) (snapshots : List RollupFamilySnapshot)
    (seen : SeenClusters) (cluster : ModelRollupCluster) :
    Except RollupValidationError (RollupCluster × SeenClusters) := do
  validateGeneratedText "title" cluster.title maxRollupTitleChars
  validateGeneratedText "summary" cluster.summary maxRollupSummaryChars
  let proposedChange ← (validateProposedChange codec cluster.proposedChange).mapError
    .invalidProposedChange
  refuseIf cluster.memberRecommendationIds.isEmpty .emptyCluster
  refuseIf (decide (cluster.memberRecommendationIds.length < minRollupMembers)) .tooFewMembers
  refuseIf (decide (maxRollupMembers < cluster.memberRecommendationIds.length)) .tooManyMembers
  let memberIds := sortStrings cluster.memberRecommendationIds
  refuseDuplicates memberIds
  refuseIf (seen.clusters.contains memberIds) .duplicateCluster
  let members ← checkMembers snapshots cluster.targetSurface seen.members memberIds
  return ({ memberRecommendationIds := memberIds
            targetSurface := cluster.targetSurface
            title := cluster.title
            summary := cluster.summary
            proposedChange := proposedChange },
    { members := members, clusters := memberIds :: seen.clusters })

def validateEachCluster (codec : RollupCodec) (snapshots : List RollupFamilySnapshot) :
    SeenClusters → List ModelRollupCluster → Except RollupValidationError (List RollupCluster)
  | _, [] => .ok []
  | seen, cluster :: rest => do
    let accepted ← validateCluster codec snapshots seen cluster
    let others ← validateEachCluster codec snapshots accepted.2 rest
    return accepted.1 :: others

def validateRollupClusters (codec : RollupCodec) (suppliedSnapshots : List RollupFamilySnapshot)
    (modelClusters : List ModelRollupCluster) :
    Except RollupValidationError (List RollupCluster) := do
  refuseIf (decide (maxRollupFamilies < suppliedSnapshots.length)) .tooManyFamilies
  refuseIf (decide (maxRollupObservations <
      (suppliedSnapshots.map (·.representativeEvidence.length)).sum))
    .tooManyObservations
  refuseIf (decide (maxRollupInputBytes < snapshotsSize codec suppliedSnapshots)) .inputTooLarge
  refuseIf (decide (maxRollupClusters < modelClusters.length)) .tooManyClusters
  refuseIf (decide (maxRollupResponseBytes < clustersSize codec modelClusters)) .responseTooLarge
  let normalized ← validateEachCluster codec suppliedSnapshots ⟨[], []⟩ modelClusters
  return sortBy (fun left right =>
    decide (left.memberRecommendationIds ≤ right.memberRecommendationIds)) normalized

end Orkworksd.Taskmaster
