import Orkworksd.Lib.Except
import Orkworksd.Lib.JsonFields
import Orkworksd.Lib.Text

/- Coordinator plans and their approvals (`taskmaster/coordinator.rs`).

   A plan comes from a proposal, which has no digests, or from its persisted text, which has.
   SHA-256, the reader of JSON text and the reader of timestamps are parameters (`Env`); what
   serde derives for the records is written out over JSON values, so that a text is read in
   two steps. `canonical_value` prints a value with sorted members. A model of the capability
   requests is not needed here and left out. -/
namespace Orkworksd.Coordinator
open Lib Lib.Text

def maxId : Nat := 128
def maxText : Nat := 16 * 1024
def maxItems : Nat := 256
def maxNodes : Nat := 128
def maxPersistedRevisionBytes : Nat := 2 * 1024 * 1024

structure Env where
  /-- `hex::encode(Sha256::digest(bytes))`. -/
  sha256Hex : List UInt8 → String
  /-- The value that `serde_json::from_slice` finds in a text. -/
  parseJson : List UInt8 → Option Json
  /-- `DateTime<Utc>::from_str`. -/
  parseTime : String → Option Int

inductive CoordinatorError where
  | invalid (field : String)
  | serialization
  /-- An index into a map that has no such key. -/
  | panicked
  /-- The fuel of `visit` is used up; the code has no such answer. -/
  | exhausted
  deriving DecidableEq, Repr

abbrev Result (α : Type) : Type := Except CoordinatorError α

def refuseIf (refused : Bool) (field : String) : Result Unit :=
  if refused then .error (.invalid field) else .ok ()

/-! ## Checks of a field -/

def bounded (value : String) (max : Nat) (field : String) : Result Unit :=
  refuseIf (value.isEmpty || max < value.utf8ByteSize || value.toList.any isControl) field

def prose (value : String) (max : Nat) (field : String) : Result Unit :=
  refuseIf (value.isEmpty || max < value.utf8ByteSize ||
    value.toList.any (fun c => isControl c && !(c = '\n' || c = '\r' || c = '\t'))) field

def proseList (values : List String) (field : String) : Result Unit := do
  refuseIf (maxItems < values.length) field
  values.forM (fun value => prose value maxText field)

/-- `id`. -/
def checkId (value : String) (field : String) : Result Unit := do
  bounded value maxId field
  refuseIf (!value.toList.all (fun c => c.isAlphanum || c = '.' || c = '_' || c = '-')) field

def strings (values : List String) (max : Nat) (field : String) : Result Unit := do
  refuseIf (maxItems < values.length) field
  values.forM (fun value => bounded value max field)

def isHexDigit (c : Char) : Bool :=
  c.isDigit || ('a' ≤ c && c ≤ 'f') || ('A' ≤ c && c ≤ 'F')

def digest (value : String) (field : String) : Result Unit :=
  refuseIf (value.utf8ByteSize ≠ 64 || !value.toList.all isHexDigit) field

/-- The second byte is a colon: the first character is then one byte long. -/
def drivePrefixed : List Char → Bool
  | c :: ':' :: _ => c.toNat < 0x80
  | _ => false

def scopes (values : List String) : Result Unit := do
  strings values maxText "scope"
  values.forM (fun path =>
    refuseIf (path.toList.head? = some '/' || drivePrefixed path.toList ||
      path.toList.contains '\\' ||
      (path.toList.splitOn '/').any (fun part => part = [] || part = ['.'] || part = ['.', '.']))
      "noncanonical scope")

/-! ## Canonical JSON -/

mutual
def canonicalValue : Json → List Char
  | .object members =>
    Char.ofNat 0x7b ::
      joined true ((canonicalMembers members).insertionSort (fun a b => a.1 ≤ b.1)) ++
        [Char.ofNat 0x7d]
  | .array items => '[' :: canonicalItems true items ++ [']']
  | .null => Json.null.print
  | .bool value => (Json.bool value).print
  | .number text => (Json.number text).print
  | .string text => (Json.string text).print

def canonicalItems (first : Bool) : List Json → List Char
  | [] => []
  | item :: items =>
    (if first then [] else [',']) ++ canonicalValue item ++ canonicalItems false items

/-- The names of the members with their canonical texts. -/
def canonicalMembers : List (String × Json) → List (String × List Char)
  | [] => []
  | (key, value) :: members => (key, canonicalValue value) :: canonicalMembers members

/-- The loop over the sorted names. -/
def joined (first : Bool) : List (String × List Char) → List Char
  | [] => []
  | (key, text) :: members =>
    (if first then [] else [',']) ++ JsonText.quote key.toList ++ ':' :: text ++
      joined false members
end

def canonicalJsonBytes (value : Json) : List UInt8 := JsonText.encode (canonicalValue value)

/-! ## Plans -/

inductive Attribution where
  | conclusive
  | inconclusive
  deriving DecidableEq, Repr

structure WorkspaceChangeSubject where
  workspaceId : String
  repositoryRevision : String
  dirtyPaths : List String
  attribution : Attribution
  deriving DecidableEq, Repr

structure PlanEvidence where
  version : UInt32
  subject : String
  references : List String
  deriving DecidableEq, Repr

inductive Role where
  | implementation
  | verification
  | review
  | remediation
  | custom (name : String)
  deriving DecidableEq, Repr

structure PlanNode where
  id : String
  parentId : Option String
  task : String
  successCriteria : List String
  promptContext : String
  promptContextDigest : String
  outputContract : String
  scope : List String
  role : Role
  allowedTools : List String
  providerAllowlist : List String
  dependencies : List String
  budgetUnits : UInt64
  retryLimit : UInt32
  concurrencyClass : String
  deriving DecidableEq, Repr

structure PlanProposalInput where
  version : UInt32
  instanceId : String
  workspaceId : String
  planId : String
  revision : UInt64
  revocationGeneration : UInt64
  supersedes : Option String
  subject : WorkspaceChangeSubject
  evidence : PlanEvidence
  nodes : List PlanNode
  totalBudgetUnits : UInt64
  maxConcurrency : UInt32
  deriving DecidableEq, Repr

structure PlanRevision extends PlanProposalInput where
  planDigest : String
  evidenceDigest : String
  deriving DecidableEq, Repr

/-- The shape on disk: a plan whose digests are not checked yet. -/
structure PersistedPlanRevision extends PlanProposalInput where
  planDigest : String
  evidenceDigest : String
  deriving DecidableEq, Repr

/-! ## What serde writes -/

def Attribution.value : Attribution → Json
  | .conclusive => .string "conclusive"
  | .inconclusive => .string "inconclusive"

def WorkspaceChangeSubject.members (s : WorkspaceChangeSubject) : Members :=
  [("workspace_id", .string s.workspaceId), ("repository_revision", .string s.repositoryRevision),
    ("dirty_paths", Json.texts s.dirtyPaths), ("attribution", s.attribution.value)]

def WorkspaceChangeSubject.value (s : WorkspaceChangeSubject) : Json := .object s.members

def PlanEvidence.members (e : PlanEvidence) : Members :=
  [("version", Json.ofNat e.version.toNat), ("subject", .string e.subject),
    ("references", Json.texts e.references)]

def PlanEvidence.value (e : PlanEvidence) : Json := .object e.members

def Role.value : Role → Json
  | .implementation => .string "implementation"
  | .verification => .string "verification"
  | .review => .string "review"
  | .remediation => .string "remediation"
  | .custom name => .object [("custom", .string name)]

def PlanNode.members (n : PlanNode) : Members :=
  [("id", .string n.id), ("parent_id", Json.ofOption Json.string n.parentId),
    ("task", .string n.task), ("success_criteria", Json.texts n.successCriteria),
    ("prompt_context", .string n.promptContext),
    ("prompt_context_digest", .string n.promptContextDigest),
    ("output_contract", .string n.outputContract), ("scope", Json.texts n.scope),
    ("role", n.role.value), ("allowed_tools", Json.texts n.allowedTools),
    ("provider_allowlist", Json.texts n.providerAllowlist),
    ("dependencies", Json.texts n.dependencies),
    ("budget_units", Json.ofNat n.budgetUnits.toNat),
    ("retry_limit", Json.ofNat n.retryLimit.toNat),
    ("concurrency_class", .string n.concurrencyClass)]

def PlanNode.value (n : PlanNode) : Json := .object n.members

def PlanProposalInput.members (p : PlanProposalInput) : Members :=
  [("version", Json.ofNat p.version.toNat), ("instance_id", .string p.instanceId),
    ("workspace_id", .string p.workspaceId), ("plan_id", .string p.planId),
    ("revision", Json.ofNat p.revision.toNat),
    ("revocation_generation", Json.ofNat p.revocationGeneration.toNat),
    ("supersedes", Json.ofOption Json.string p.supersedes), ("subject", p.subject.value),
    ("evidence", p.evidence.value), ("nodes", .array (p.nodes.map PlanNode.value)),
    ("total_budget_units", Json.ofNat p.totalBudgetUnits.toNat),
    ("max_concurrency", Json.ofNat p.maxConcurrency.toNat)]

def PlanRevision.members (p : PlanRevision) : Members :=
  p.toPlanProposalInput.members ++
    [("plan_digest", .string p.planDigest), ("evidence_digest", .string p.evidenceDigest)]

def PlanRevision.value (p : PlanRevision) : Json := .object p.members

/-- `(evidence.version, subject, evidence)`. -/
def PlanProposalInput.evidenceMaterial (p : PlanProposalInput) : Json :=
  .array [Json.ofNat p.evidence.version.toNat, p.subject.value, p.evidence.value]

/-! ## What serde reads -/

def u32 (v : Json) : Option UInt32 := (Json.natural (2 ^ 32) v).map UInt32.ofNat
def u64 (v : Json) : Option UInt64 := (Json.natural (2 ^ 64) v).map UInt64.ofNat

def Attribution.read (v : Json) : Option Attribution := do
  let tag ← Json.variant v
  if tag = "conclusive" then some .conclusive
  else if tag = "inconclusive" then some .inconclusive
  else none

def subjectNames : List String :=
  ["workspace_id", "repository_revision", "dirty_paths", "attribution"]

def WorkspaceChangeSubject.read : Json → Option WorkspaceChangeSubject :=
  Json.fields 0 subjectNames fun m => do
    let workspaceId ← Json.field m "workspace_id" Json.text
    let repositoryRevision ← Json.field m "repository_revision" Json.text
    let dirtyPaths ← Json.field m "dirty_paths" (Json.list Json.text)
    let attribution ← Json.field m "attribution" Attribution.read
    some { workspaceId, repositoryRevision, dirtyPaths, attribution }

def evidenceNames : List String := ["version", "subject", "references"]

def PlanEvidence.read : Json → Option PlanEvidence :=
  Json.fields 0 evidenceNames fun m => do
    let version ← Json.field m "version" u32
    let subject ← Json.field m "subject" Json.text
    let references ← Json.field m "references" (Json.list Json.text)
    some { version, subject, references }

/-- An enumeration with its variant as the tag. -/
def Role.read : Json → Option Role
  | .string text =>
    if text = "implementation" then some .implementation
    else if text = "verification" then some .verification
    else if text = "review" then some .review
    else if text = "remediation" then some .remediation
    else none
  | .object [(tag, content)] =>
    if tag = "custom" then (Json.text content).map Role.custom
    else if tag ∈ ["implementation", "verification", "review", "remediation"] then
      match content with
      | .null =>
        if tag = "implementation" then some .implementation
        else if tag = "verification" then some .verification
        else if tag = "review" then some .review
        else some .remediation
      | _ => none
    else none
  | _ => none

def nodeNames : List String :=
  ["id", "parent_id", "task", "success_criteria", "prompt_context", "prompt_context_digest",
    "output_contract", "scope", "role", "allowed_tools", "provider_allowlist", "dependencies",
    "budget_units", "retry_limit", "concurrency_class"]

def PlanNode.read : Json → Option PlanNode :=
  Json.fields 0 nodeNames fun m => do
    let id ← Json.field m "id" Json.text
    let parentId ← Json.field m "parent_id" (Json.nullable Json.text)
    let task ← Json.field m "task" Json.text
    let successCriteria ← Json.field m "success_criteria" (Json.list Json.text)
    let promptContext ← Json.field m "prompt_context" Json.text
    let promptContextDigest ← Json.field m "prompt_context_digest" Json.text
    let outputContract ← Json.field m "output_contract" Json.text
    let scope ← Json.field m "scope" (Json.list Json.text)
    let role ← Json.field m "role" Role.read
    let allowedTools ← Json.field m "allowed_tools" (Json.list Json.text)
    let providerAllowlist ← Json.field m "provider_allowlist" (Json.list Json.text)
    let dependencies ← Json.field m "dependencies" (Json.list Json.text)
    let budgetUnits ← Json.field m "budget_units" u64
    let retryLimit ← Json.field m "retry_limit" u32
    let concurrencyClass ← Json.field m "concurrency_class" Json.text
    some { id, parentId, task, successCriteria, promptContext, promptContextDigest,
           outputContract, scope, role, allowedTools, providerAllowlist, dependencies,
           budgetUnits, retryLimit, concurrencyClass }

def materialNames : List String :=
  ["version", "instance_id", "workspace_id", "plan_id", "revision", "revocation_generation",
    "supersedes", "subject", "evidence", "nodes", "total_budget_units", "max_concurrency"]

def PlanProposalInput.readMembers (m : Members) : Option PlanProposalInput := do
  let version ← Json.field m "version" u32
  let instanceId ← Json.field m "instance_id" Json.text
  let workspaceId ← Json.field m "workspace_id" Json.text
  let planId ← Json.field m "plan_id" Json.text
  let revision ← Json.field m "revision" u64
  let revocationGeneration ← Json.field m "revocation_generation" u64
  let supersedes ← Json.optional m "supersedes" Json.text
  let subject ← Json.field m "subject" WorkspaceChangeSubject.read
  let evidence ← Json.field m "evidence" PlanEvidence.read
  let nodes ← Json.field m "nodes" (Json.list PlanNode.read)
  let totalBudgetUnits ← Json.field m "total_budget_units" u64
  let maxConcurrency ← Json.field m "max_concurrency" u32
  some { version, instanceId, workspaceId, planId, revision, revocationGeneration, supersedes,
         subject, evidence, nodes, totalBudgetUnits, maxConcurrency }

def persistedNames : List String := materialNames ++ ["plan_digest", "evidence_digest"]

def PersistedPlanRevision.read : Json → Option PersistedPlanRevision :=
  Json.fields 0 persistedNames fun m => do
    let input ← PlanProposalInput.readMembers m
    let planDigest ← Json.field m "plan_digest" Json.text
    let evidenceDigest ← Json.field m "evidence_digest" Json.text
    some { input with planDigest, evidenceDigest }

/-! ## Validation -/

section env
variable (env : Env)

def knownTool (tool : String) : Result Unit := do
  checkId tool "tool id"
  refuseIf (!(["read_file", "write_file", "run_bounded_command", "git_read"].contains tool))
    "unknown tool"

def PlanNode.validate (n : PlanNode) : Result Unit := do
  checkId n.id "node id"
  n.parentId.forM (fun parent => checkId parent "parent id")
  prose n.task maxText "task"
  refuseIf n.successCriteria.isEmpty "success criteria"
  proseList n.successCriteria "success criteria"
  prose n.promptContext maxText "prompt context"
  digest n.promptContextDigest "prompt digest"
  refuseIf (n.promptContextDigest ≠ env.sha256Hex (JsonText.encode n.promptContext.toList))
    "prompt digest"
  prose n.outputContract maxText "output contract"
  refuseIf n.scope.isEmpty "scope"
  scopes n.scope
  refuseIf n.allowedTools.isEmpty "allowed tools"
  strings n.allowedTools maxId "allowed tools"
  n.allowedTools.forM knownTool
  refuseIf n.providerAllowlist.isEmpty "provider allowlist"
  strings n.providerAllowlist maxId "provider allowlist"
  n.providerAllowlist.forM (fun provider => checkId provider "provider")
  strings n.dependencies maxId "dependencies"
  n.dependencies.forM (fun dep => checkId dep "dependency")
  bounded n.concurrencyClass maxId "concurrency class"
  refuseIf (n.budgetUnits = 0) "budget units"
  match n.role with
  | .custom name => checkId name "role"
  | _ => .ok ()

/-- The nodes in order, with the names of those before. -/
def validateNodes : List PlanNode → List String → Result Unit
  | [], _ => .ok ()
  | node :: nodes, ids => do
    node.validate env
    refuseIf (ids.contains node.id) "duplicate node"
    validateNodes nodes (node.id :: ids)

/-- The names on the path and those that are done. -/
abbrev Marks : Type := List String × List String

/-- `visit`: a path longer than the number of nodes meets one of them twice, so `fuel` above
that number is never used up. -/
def visit (nodes : List PlanNode) : Nat → String → Marks → Result Marks
  | 0, _, _ => .error .exhausted
  | fuel + 1, name, (visiting, visited) =>
    if visited.contains name then .ok (visiting, visited)
    else if visiting.contains name then .error (.invalid "graph cycle")
    else
      match nodes.find? (fun node => node.id = name) with
      | none => .error .panicked
      | some node => do
        let marks ← (node.parentId.toList ++ node.dependencies).foldlM
          (fun marks next => visit nodes fuel next marks) (name :: visiting, visited)
        .ok (marks.1.erase name, name :: marks.2)

/-- `try_fold` with `checked_add`. -/
def reserved (nodes : List PlanNode) : Option Nat :=
  nodes.foldlM (fun sum node =>
    if sum + node.budgetUnits.toNat < 2 ^ 64 then some (sum + node.budgetUnits.toNat) else none) 0

def PlanProposalInput.validateGraph (p : PlanProposalInput) : Result Unit := do
  refuseIf (p.nodes.isEmpty || maxNodes < p.nodes.length) "nodes"
  validateNodes env p.nodes []
  let ids := p.nodes.map PlanNode.id
  p.nodes.forM (fun node =>
    refuseIf (node.parentId.any (fun parent => !ids.contains parent) ||
      node.dependencies.any (fun dep => !ids.contains dep)) "graph reference")
  let _ ← p.nodes.foldlM (fun marks node => visit p.nodes (p.nodes.length + 1) node.id marks)
    (([], []) : Marks)
  .ok ()

def PlanProposalInput.validateBudget (p : PlanProposalInput) : Result Unit := do
  refuseIf (p.totalBudgetUnits = 0 || p.maxConcurrency = 0) "limits"
  match reserved p.nodes with
  | none => .error (.invalid "budget overflow")
  | some reserved => refuseIf (p.totalBudgetUnits.toNat < reserved) "budget"

/-- `PlanRevision::validate` up to the digests. -/
def PlanProposalInput.validateContent (p : PlanProposalInput) : Result Unit := do
  refuseIf (p.version ≠ 1 || p.evidence.version ≠ 1) "version"
  checkId p.instanceId "instance id"
  checkId p.workspaceId "workspace id"
  checkId p.planId "plan id"
  refuseIf (p.planId.toList.any Char.isUpper) "plan id"
  refuseIf (p.revision = 0) "revision"
  p.supersedes.forM (fun previous => checkId previous "supersedes")
  refuseIf (p.subject.workspaceId ≠ p.workspaceId || p.subject.attribution ≠ .conclusive)
    "workspace change subject"
  bounded p.subject.repositoryRevision maxId "repository revision"
  strings p.subject.dirtyPaths maxText "dirty paths"
  prose p.evidence.subject maxText "evidence subject"
  proseList p.evidence.references "evidence references"
  p.validateGraph env
  p.validateBudget

def PlanProposalInput.computePlanDigest (p : PlanProposalInput) : String :=
  env.sha256Hex (canonicalJsonBytes (.object p.members))

def PlanProposalInput.computeEvidenceDigest (p : PlanProposalInput) : String :=
  env.sha256Hex (canonicalJsonBytes p.evidenceMaterial)

def PlanRevision.validate (p : PlanRevision) : Result Unit := do
  p.toPlanProposalInput.validateContent env
  refuseIf (p.planDigest ≠ p.toPlanProposalInput.computePlanDigest env) "plan digest"
  refuseIf (p.evidenceDigest ≠ p.toPlanProposalInput.computeEvidenceDigest env) "evidence digest"

/-- `serde_json::to_vec` of a plan. -/
def PlanRevision.serialize (p : PlanRevision) : List UInt8 := p.value.bytes

def fromProposal (input : PlanProposalInput) : Result PlanRevision := do
  let plan : PlanRevision :=
    { input with
      planDigest := input.computePlanDigest env
      evidenceDigest := input.computeEvidenceDigest env }
  plan.validate env
  if maxPersistedRevisionBytes < plan.serialize.length then
    .error (.invalid "persisted revision size")
  else .ok plan

def fromPersisted (stored : PersistedPlanRevision) : Result PlanRevision := do
  let plan ← fromProposal env stored.toPlanProposalInput
  if stored.planDigest ≠ plan.planDigest ∨ stored.evidenceDigest ≠ plan.evidenceDigest then
    .error (.invalid "persisted digest")
  else .ok plan

/-- `Deserialize for PlanRevision`. -/
def PlanRevision.read (v : Json) : Option PlanRevision :=
  (PersistedPlanRevision.read v).bind (fun stored => (fromPersisted env stored).toOption)

def fromPersistedBytes (bytes : List UInt8) : Result PlanRevision :=
  if maxPersistedRevisionBytes < bytes.length then .error (.invalid "persisted revision size")
  else
    match (env.parseJson bytes).bind (PlanRevision.read env) with
    | some plan => .ok plan
    | none => .error .serialization

/-! ## Approvals -/

structure PlanApproval where
  version : UInt32
  approvalId : String
  userId : String
  instanceId : String
  workspaceId : String
  planId : String
  revision : UInt64
  planDigest : String
  evidenceDigest : String
  approvedAt : String
  expiresAt : String
  revocationGeneration : UInt64
  supersedes : Option String
  deriving DecidableEq, Repr

def timeOf (text field : String) : Result Int :=
  match env.parseTime text with
  | some time => .ok time
  | none => .error (.invalid field)

def PlanApproval.binds (a : PlanApproval) (p : PlanRevision) : Bool :=
  a.instanceId = p.instanceId && a.workspaceId = p.workspaceId && a.planId = p.planId &&
    a.revision = p.revision && a.planDigest = p.toPlanProposalInput.computePlanDigest env &&
    a.evidenceDigest = p.toPlanProposalInput.computeEvidenceDigest env &&
    a.revocationGeneration = p.revocationGeneration && a.supersedes = p.supersedes

def PlanApproval.validateAgainstAt (a : PlanApproval) (p : PlanRevision) (now : Int) :
    Result Unit := do
  p.validate env
  refuseIf (a.version ≠ 1) "approval version"
  checkId a.approvalId "approval id"
  checkId a.userId "user id"
  let approved ← timeOf env a.approvedAt "approved at"
  let expires ← timeOf env a.expiresAt "expires at"
  refuseIf (now < approved || expires ≤ approved || expires ≤ now) "approval expired"
  refuseIf (!a.binds env p) "approval binding"

/-- `validate_historical_against`, with the clock as it reads it. -/
def PlanApproval.validateHistoricalAgainst (a : PlanApproval) (p : PlanRevision) (now : Int) :
    Result Unit := do
  let approved ← timeOf env a.approvedAt "approved at"
  refuseIf (now < approved) "approved at"
  a.validateAgainstAt env p approved

inductive PlanStatus where
  | draft
  | proposed
  | active
  | readyForUserReview
  | paused
  | recoveryRequired
  | completed
  | failed
  | cancelled
  | expired
  | revoked
  deriving DecidableEq, Repr

def PlanStatus.canActivateAt (s : PlanStatus) (a : PlanApproval) (p : PlanRevision)
    (currentGeneration : UInt64) (now : Int) : Result Unit := do
  refuseIf (s ≠ .proposed || a.revocationGeneration ≠ currentGeneration) "activation state"
  a.validateAgainstAt env p now

def PlanStatus.canResumeAt (s : PlanStatus) (a : PlanApproval) (p : PlanRevision)
    (currentGeneration : UInt64) (now : Int) : Result Unit := do
  refuseIf (s ≠ .paused || a.revocationGeneration ≠ currentGeneration) "resume state"
  a.validateAgainstAt env p now

end env

def PlanStatus.allowsTransition : PlanStatus → PlanStatus → Bool
  | .draft, next => next = .proposed
  | .proposed, next => next = .paused || next = .recoveryRequired
  | .active, next =>
    [.readyForUserReview, .paused, .recoveryRequired, .completed, .failed, .cancelled, .expired,
      .revoked].contains next
  | .readyForUserReview, next => [.failed, .cancelled, .expired, .revoked].contains next
  | .paused, next => [.cancelled, .expired, .revoked].contains next
  | _, _ => false

end Orkworksd.Coordinator
