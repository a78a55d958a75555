import Orkworksd.Lib.Except
import Orkworksd.Metadata.MutationScope

/- An agent's patch of a session record (`metadata/agent_patch.rs`): what the patch itself
   has to be, what the record it is applied to has to allow, and the assignment.

   The assignment writes through `&mut SessionMetadata`, so `apply` runs on a state, and an
   error keeps what was written before it. What git, the disk and the branch documents answer
   is given by `Surroundings` and by the store.

   What is proved:
     1. `apply_scoped`: an error leaves the record as it is; a success changes the fields
        the patch names and the time of the last activity, and nothing that the user owns
        or has pinned.
     2. `apply_stamps_activity`: the time of the last activity is in no patch.
     3. `applyChecked_others`: what the database gets back is the record of a live session
        whose other fields are as they were. -/
namespace Orkworksd.Metadata.AgentPatches

variable {m : SessionMetadata}

/-- `AgentPatchError`, as `map_error` sorts the errors of a patch. -/
inductive AgentPatchError where
  | conflict
  | badRequest
  | unauthorized
  | io
  deriving DecidableEq, Repr

/-- A field that is left out, taken away or given a value. -/
inductive FieldUpdate (α : Type) where
  | omitted
  | clear
  | set (value : α)

structure AttentionState where
  observedStatus : Option String
  needsUserInput : Option Bool
  detectedQuestion : Option String
  suggestedOptions : Option (List String)

structure WorkFields where
  task : String
  nextAction : Option String
  workPhase : String
  blockerDescription : Option String
  failedCommand : Option String
  failedTest : Option String

structure AgentMetadata where
  workFields : Option WorkFields
  summary : FieldUpdate String
  planPath : FieldUpdate String
  worktreePath : FieldUpdate String

structure AgentPatch where
  attentionState : Option AttentionState
  agentMetadata : Option AgentMetadata

/-- `branch_documents::DocumentKind`. -/
inductive DocumentKind where
  | design | implementation
  deriving DecidableEq, Repr

/-- A branch document, as far as a pin counts. -/
structure BranchDocument where
  kind : DocumentKind
  pinned : Bool

/-- What is outside the record. -/
structure Surroundings where
  /-- `WorktreeBinding::resolve` from the launch directory. -/
  resolveBinding : String → String → Option WorktreeBinding
  /-- `WorktreeBinding::validate`: its canonical root. -/
  validateBinding : WorktreeBinding → Option String
  /-- `resolve_printed_plan_path`: the root of a worktree and a path in it. -/
  resolvePrintedPlanPath : String → String → Option (String × String)
  /-- `branch_documents::kind_for_path`. -/
  kindForPath : String → Option DocumentKind
  /-- `branch_documents::identity`. -/
  identity : String → Option String
  /-- `iso_now`, for the summary and for the activity. -/
  summaryNow : String
  activityNow : String

abbrev BranchStore : Type := String → Option (List BranchDocument)

/-! ## What a patch has to be -/

def validText (value : String) : Bool :=
  !(Lib.Text.trim value.toList).isEmpty && !value.toList.any Lib.Text.isControl

def observedStatuses : List String :=
  ["waiting_for_input", "blocked", "failed", "capped", "working", "idle", "stale", "done"]

/-- The statuses under which input may be needed. -/
def inputStatuses : List String := ["waiting_for_input", "blocked", "failed", "capped"]

/-- `if condition { return Err(message) }`. -/
def refuse (condition : Bool) (message : String) : Except String Unit :=
  if condition then .error message else .ok ()

def validateAttention (attention : AttentionState) : Except String Unit := do
  let status := attention.observedStatus
  let input := attention.needsUserInput == some true
  refuse (status.any (fun status => !(observedStatuses.contains status))) "invalid observed status"
  refuse (status == some "waiting_for_input" && !input) "waiting status requires user input"
  refuse (input && !(status.any (fun status => inputStatuses.contains status)))
    "status cannot require user input"
  refuse (attention.detectedQuestion.any (fun question => !(validText question) || !input))
    "question requires user input"
  refuse (attention.suggestedOptions.any (fun options =>
    options.any (fun option => !(validText option))))
    "invalid suggested option"
  refuse (attention.suggestedOptions.any (fun options => !options.isEmpty)
    && attention.detectedQuestion.isNone) "options require a question"
  refuse (!input && (attention.detectedQuestion.isSome
    || attention.suggestedOptions.any (fun options => !options.isEmpty)))
    "prompt fields require user input"

/-- `matches!(update, FieldUpdate::Omitted)`. -/
def isOmitted {α : Type} : FieldUpdate α → Bool
  | .omitted => true
  | _ => false

/-- The new value. -/
def setValue {α : Type} : FieldUpdate α → Option α
  | .set value => some value
  | _ => none

/-- `Path::is_absolute` on Unix. -/
def isAbsolute (path : String) : Bool := path.toList.head? == some '/'

def validateWork (work : WorkFields) : Except String Unit := do
  refuse (!(validText work.task) || !(workPhases.contains work.workPhase)) "invalid work fields"
  refuse ([work.nextAction, work.blockerDescription, work.failedCommand, work.failedTest].any
    (fun value => value.any (fun value => !(validText value)))) "invalid work field text"

def validateAgentMetadata (agent : AgentMetadata) : Except String Unit := do
  refuse (agent.workFields.isNone && isOmitted agent.summary && isOmitted agent.planPath
    && isOmitted agent.worktreePath) "empty agent metadata"
  refuse ((setValue agent.summary).any (fun summary => !(validText summary))) "invalid summary"
  refuse ((setValue agent.planPath).any (fun path =>
    !(validText path) || isAbsolute path || path.toList.head? == some '~')) "invalid plan path"
  match agent.workFields with
  | some work => validateWork work
  | none => .ok ()

namespace AgentPatch

def validate (patch : AgentPatch) : Except String Unit := do
  refuse (patch.attentionState.isNone && patch.agentMetadata.isNone) "empty patch"
  match patch.attentionState with
  | some attention => validateAttention attention
  | none => .ok ()
  match patch.agentMetadata with
  | some agent => validateAgentMetadata agent
  | none => .ok ()

def scope (patch : AgentPatch) : WriteScope where
  attention := patch.attentionState.isSome
  work := patch.agentMetadata.any (fun agent => agent.workFields.isSome)

end AgentPatch

/-- `AgentPatchEnvelope`: a patch that was read has been validated. -/
structure AgentPatchEnvelope where
  metadataRevision : Nat
  patch : AgentPatch
  valid : patch.validate = .ok ()

/-- `TryFrom<RawEnvelope>`. -/
def AgentPatchEnvelope.tryFrom (metadataRevision : Nat) (patch : AgentPatch) :
    Except String AgentPatchEnvelope :=
  match h : patch.validate with
  | .ok () => .ok ⟨metadataRevision, patch, h⟩
  | .error message => .error message

/-! ## What the record has to allow -/

/-- `?` on an answer that a bad request has none of. -/
def orBadRequest {α : Type} : Option α → Except AgentPatchError α
  | some value => .ok value
  | none => .error .badRequest

/-- The user's choice of a plan. -/
def pinnedPlan (m : SessionMetadata) : Option PlanReference :=
  m.planPath.filter (fun plan => plan.source == .userSelected)

def requireLive (m : SessionMetadata) : Except AgentPatchError Unit :=
  if m.lifecycle = "alive" ∧ m.lifecyclePhase = "active" ∧ m.status = "running" then .ok ()
  else .error .unauthorized

/-- `if !can_overwrite("agent", source, None) { return Err(Conflict) }`. -/
def requireOverwrite (checked : Bool) (source : String) : Except AgentPatchError Unit :=
  if checked && !(SourcePriority.canOverwrite "agent" source none) then .error .conflict else .ok ()

namespace AgentPatch

/-- Whether a pin stands in the way of a reported plan: a pin shared by the branch, and else
a pin of a document of the same kind. -/
def pinBlocks (env : Surroundings) (store : Option BranchStore) (pin : PlanReference)
    (root relativePath : String) : Except AgentPatchError Bool :=
  let independent :=
    match env.kindForPath pin.relativePath, env.kindForPath relativePath with
    | some pinned, some reported => pinned != reported
    | _, _ => false
  if pin.worktreeRoot.isSome && (env.kindForPath pin.relativePath).isSome then
    match store, env.identity root, env.kindForPath relativePath with
    | some store, some identity, some kind =>
      match store identity with
      | some documents => .ok (documents.any (fun doc => doc.kind == kind && doc.pinned))
      | none => .error .io
    | _, _, _ => .ok !independent
  else .ok !independent

def requestedBinding (env : Surroundings) (agent : AgentMetadata) (m : SessionMetadata) :
    Except AgentPatchError (Option WorktreeBinding) :=
  match agent.worktreePath with
  | .set path => (orBadRequest (env.resolveBinding m.cwd path)).map some
  | _ => .ok none

/-- The worktree in which a plan path is looked up. -/
def planBinding (env : Surroundings) (agent : AgentMetadata) (m : SessionMetadata) :
    Except AgentPatchError (Option WorktreeBinding) :=
  match agent.worktreePath with
  | .set root => (orBadRequest (env.resolveBinding m.cwd root)).map some
  | .clear => .ok none
  | .omitted => .ok m.worktreeBinding

/-- The plan that a path names. -/
def validatePlan (env : Surroundings) (store : Option BranchStore) (agent : AgentMetadata)
    (path : String) (m : SessionMetadata) : Except AgentPatchError PlanReference := do
  let binding ← planBinding env agent m
  let launch ← match binding with
    | some binding => orBadRequest (env.validateBinding binding)
    | none => .ok m.cwd
  let (root, relativePath) ← orBadRequest (env.resolvePrintedPlanPath launch path)
  if binding.isSome ∧ root ≠ launch then
    .error .badRequest
  else
    match pinnedPlan m with
    | some pin =>
      if ← pinBlocks env store pin root relativePath then .error .conflict
      else .ok ⟨some root, relativePath, .agentReported⟩
    | none => .ok ⟨some root, relativePath, .agentReported⟩

/-- The plan that the metadata reports, and whether it may take a pinned one away. -/
def reportedPlan (env : Surroundings) (store : Option BranchStore) (agent : AgentMetadata)
    (m : SessionMetadata) : Except AgentPatchError (Option PlanReference) :=
  match agent.planPath with
  | .omitted => .ok none
  | .clear => if (pinnedPlan m).isSome then .error .conflict else .ok none
  | .set path => (validatePlan env store agent path m).map some

def validateCurrent (env : Surroundings) (store : Option BranchStore) (patch : AgentPatch)
    (checkSource : Bool) (m : SessionMetadata) :
    Except AgentPatchError (Option PlanReference) := do
  requireOverwrite (checkSource && patch.attentionState.isSome) m.attentionSource
  match patch.agentMetadata with
  | none => .ok none
  | some agent =>
    requireOverwrite (checkSource && agent.workFields.isSome) m.metadataSource
    requireOverwrite (checkSource && !(isOmitted agent.summary))
      (m.provenance.summarySource.getD "unknown")
    let _ ← requestedBinding env agent m
    reportedPlan env store agent m

end AgentPatch

/-! ## The assignment -/

/-- A step that reads and writes the record. -/
abbrev Writing (α : Type) : Type := ExceptT AgentPatchError (StateM SessionMetadata) α

/-- A check reads the record and writes nothing. -/
def checked {α : Type} (check : SessionMetadata → Except AgentPatchError α) : Writing α :=
  ExceptT.mk (fun m => (check m, m))

variable {β α : Type}

theorem checked_ok {check : SessionMetadata → Except AgentPatchError α} {value : α}
    (h : check m = .ok value) (next : α → Writing β) :
    (checked check >>= next).run.run m = (next value).run.run m := by
  show StateT.run (ExceptT.bindCont next (check m)) m = _
  rw [h]
  rfl

theorem checked_error {check : SessionMetadata → Except AgentPatchError α} {e : AgentPatchError}
    (h : check m = .error e) (next : α → Writing β) :
    (checked check >>= next).run.run m = (.error e, m) := by
  show StateT.run (ExceptT.bindCont next (check m)) m = _
  rw [h]
  rfl

def applyAttention (attention : AttentionState) (m : SessionMetadata) : SessionMetadata :=
  let cleared := attention.observedStatus.isNone
  { m with
    observedStatus := attention.observedStatus
    needsUserInput := attention.needsUserInput
    detectedQuestion := attention.detectedQuestion
    suggestedOptions := attention.suggestedOptions
    attention := canonicalAttention attention.observedStatus
    provenance := { m.provenance with
      attentionSource := some (if cleared then "unknown" else "agent")
      attentionConfidence := some (if cleared then .zero else .one)
      attentionOrigin := some "direct_agent" } }

def applyWork (work : WorkFields) (m : SessionMetadata) : SessionMetadata :=
  { m with
    task := work.task
    nextAction := work.nextAction
    workPhase := work.workPhase
    blockerDescription := work.blockerDescription
    failedCommand := work.failedCommand
    failedTest := work.failedTest
    metadataSource := "agent"
    metadataConfidence := .one }

def applySummary (summary : FieldUpdate String) (now : String) (m : SessionMetadata) :
    SessionMetadata :=
  match summary with
  | .omitted => m
  | .clear =>
    { m with
      summary := none
      provenance := { m.provenance with
        summarySource := none, summaryConfidence := none, summaryObservedAt := none } }
  | .set value =>
    { m with
      summary := some value
      provenance := { m.provenance with
        summarySource := some "agent", summaryConfidence := some .one,
        summaryObservedAt := some now } }

def applyPlan (plan : FieldUpdate String) (resolved : Option PlanReference) (m : SessionMetadata) :
    SessionMetadata :=
  match plan with
  | .omitted => m
  | .clear => { m with planPath := none }
  | .set _ =>
    if m.planPath.any (fun reference => reference.source = .userSelected) then m
    else { m with planPath := resolved }

namespace AgentPatch

/-- The binding that a patch asks for. -/
def newBinding (env : Surroundings) (patch : AgentPatch) (m : SessionMetadata) :
    Except AgentPatchError (Option WorktreeBinding) :=
  match patch.agentMetadata with
  | some agent => requestedBinding env agent m
  | none => .ok none

/-- The attention that a patch brings. -/
def writeAttention (patch : AgentPatch) (m : SessionMetadata) : SessionMetadata :=
  match patch.attentionState with
  | some attention => applyAttention attention m
  | none => m

def writeBinding (agent : AgentMetadata) (binding : Option WorktreeBinding) (m : SessionMetadata) :
    SessionMetadata :=
  if isOmitted agent.worktreePath then m else { m with worktreeBinding := binding }

def writeWork (agent : AgentMetadata) (m : SessionMetadata) : SessionMetadata :=
  match agent.workFields with
  | some work => applyWork work m
  | none => m

/-- The metadata that a patch brings. -/
def writeAgent (env : Surroundings) (patch : AgentPatch) (plan : Option PlanReference)
    (binding : Option WorktreeBinding) (m : SessionMetadata) : SessionMetadata :=
  match patch.agentMetadata with
  | some agent =>
    applyPlan agent.planPath plan
      (applySummary agent.summary env.summaryNow (writeWork agent (writeBinding agent binding m)))
  | none => m

def apply (env : Surroundings) (store : Option BranchStore) (patch : AgentPatch) :
    Writing (Option PlanReference) := do
  checked requireLive
  let plan ← checked (validateCurrent env store patch true)
  let binding ← checked (newBinding env patch)
  modify (writeAttention patch)
  modify (writeAgent env patch plan binding)
  modify (fun m => { m with lastActivity := env.activityNow })
  return plan

/-- `apply_checked`: there is no branch-document store. -/
def applyChecked (env : Surroundings) (patch : AgentPatch) (m : SessionMetadata) :
    Except AgentPatchError SessionMetadata :=
  match (apply env none patch).run.run m with
  | (.ok _, m') => .ok m'
  | (.error e, _) => .error e

def checks (env : Surroundings) (store : Option BranchStore) (patch : AgentPatch)
    (m : SessionMetadata) :
    Except AgentPatchError (Option PlanReference × Option WorktreeBinding) := do
  requireLive m
  let plan ← validateCurrent env store patch true m
  let binding ← newBinding env patch m
  .ok (plan, binding)

theorem apply_run (env : Surroundings) (store : Option BranchStore) (patch : AgentPatch)
    (m : SessionMetadata) : (apply env store patch).run.run m =
      match checks env store patch m with
      | .ok (plan, binding) =>
        (.ok plan, { writeAgent env patch plan binding (writeAttention patch m) with
          lastActivity := env.activityNow })
      | .error e => (.error e, m) := by
  unfold apply checks
  cases hlive : requireLive m with
  | error e => exact checked_error hlive _
  | ok _ =>
    rw [checked_ok hlive]
    cases hplan : validateCurrent env store patch true m with
    | error e => exact checked_error hplan _
    | ok plan =>
      rw [checked_ok hplan]
      cases hbinding : newBinding env patch m with
      | error e => exact checked_error hbinding _
      | ok binding =>
        rw [checked_ok hbinding]
        rfl

end AgentPatch

/-! ## What a patch leaves alone -/

/-- The fields that a report of work owns. -/
structure WorkPart where
  task : String
  nextAction : Option String
  workPhase : String
  blockerDescription : Option String
  failedCommand : Option String
  failedTest : Option String
  source : String
  confidence : F64

/-- The summary and where it comes from. -/
structure SummaryPart where
  summary : Option String
  source : Option String
  confidence : Option F64
  observedAt : Option String

def workPart (m : SessionMetadata) : WorkPart where
  task := m.task
  nextAction := m.nextAction
  workPhase := m.workPhase
  blockerDescription := m.blockerDescription
  failedCommand := m.failedCommand
  failedTest := m.failedTest
  source := m.metadataSource
  confidence := m.metadataConfidence

def summaryPart (m : SessionMetadata) : SummaryPart where
  summary := m.summary
  source := m.provenance.summarySource
  confidence := m.provenance.summaryConfidence
  observedAt := m.provenance.summaryObservedAt

/-- A record whose every field that a patch can name is blank. -/
def unnamed (m : SessionMetadata) : SessionMetadata :=
  { m with
    observedStatus := none, needsUserInput := none, detectedQuestion := none
    suggestedOptions := none, attention := none
    task := "", nextAction := none, workPhase := "", blockerDescription := none
    failedCommand := none, failedTest := none, metadataSource := "", metadataConfidence := .zero
    summary := none, planPath := none, worktreeBinding := none
    provenance := { m.provenance with
      attentionSource := none, attentionConfidence := none, attentionOrigin := none
      summarySource := none, summaryConfidence := none, summaryObservedAt := none } }

/-- A record, by what a patch can name. -/
structure Parts where
  attention : AttentionFields
  work : WorkPart
  summary : SummaryPart
  planPath : Option PlanReference
  worktreeBinding : Option WorktreeBinding
  others : SessionMetadata

def parts (m : SessionMetadata) : Parts where
  attention := m.attentionFields
  work := workPart m
  summary := summaryPart m
  planPath := m.planPath
  worktreeBinding := m.worktreeBinding
  others := unnamed m

/-- The second record differs from the first only in what the patch names. -/
structure Scoped (patch : AgentPatch) (m m' : SessionMetadata) : Prop where
  attention : patch.attentionState = none → (parts m').attention = (parts m).attention
  work : (∀ agent, patch.agentMetadata = some agent → agent.workFields = none) →
    (parts m').work = (parts m).work
  summary : (∀ agent, patch.agentMetadata = some agent → agent.summary = .omitted) →
    (parts m').summary = (parts m).summary
  planPath : (∀ agent, patch.agentMetadata = some agent → agent.planPath = .omitted) →
    (parts m').planPath = (parts m).planPath
  worktreeBinding : (∀ agent, patch.agentMetadata = some agent → agent.worktreePath = .omitted) →
    (parts m').worktreeBinding = (parts m).worktreeBinding
  others : (parts m').others = (parts m).others

/-- What the user owns or has pinned in the first record is the same in the second. -/
structure Kept (m m' : SessionMetadata) : Prop where
  attention : m.attentionSource = "user" → (parts m').attention = (parts m).attention
  work : m.metadataSource = "user" → (parts m').work = (parts m).work
  summary : m.provenance.summarySource = some "user" → (parts m').summary = (parts m).summary
  planPath : (pinnedPlan m).isSome → (parts m').planPath = (parts m).planPath

theorem any_of_pinned (h : (pinnedPlan m).isSome) :
    m.planPath.any (fun reference => reference.source = .userSelected) = true := by
  unfold pinnedPlan at h
  cases plan : m.planPath with
  | none => rw [plan] at h; cases h
  | some reference =>
    rw [plan] at h
    cases source : reference.source <;> simp_all

section stages
variable (m : SessionMetadata)

theorem parts_applyAttention (attention : AttentionState) :
    parts (applyAttention attention m) = { parts m with
      attention := (applyAttention attention m).attentionFields } := rfl

theorem parts_applyWork (work : WorkFields) :
    parts (applyWork work m) = { parts m with
      work := workPart (applyWork work m) } := rfl

theorem parts_applySummary (summary : FieldUpdate String) (now : String) :
    parts (applySummary summary now m) = { parts m with
      summary := summaryPart (applySummary summary now m) } := by
  cases summary <;> rfl

theorem parts_applyPlan (update : FieldUpdate String) (plan : Option PlanReference) :
    parts (applyPlan update plan m) = { parts m with
      planPath := (applyPlan update plan m).planPath } := by
  unfold applyPlan
  cases update with
  | omitted => rfl
  | clear => rfl
  | set path =>
    dsimp only
    split
    · rfl
    · rfl

theorem parts_writeAttention (patch : AgentPatch) :
    parts (patch.writeAttention m) = { parts m with
      attention := (patch.writeAttention m).attentionFields } := by
  unfold AgentPatch.writeAttention
  cases patch.attentionState with
  | none => rfl
  | some attention => exact parts_applyAttention m attention

variable (agent : AgentMetadata)

theorem parts_writeBinding (binding : Option WorktreeBinding) :
    parts (AgentPatch.writeBinding agent binding m) = { parts m with
      worktreeBinding := (AgentPatch.writeBinding agent binding m).worktreeBinding } := by
  unfold AgentPatch.writeBinding
  split
  · rfl
  · rfl

theorem parts_writeWork : parts (AgentPatch.writeWork agent m) = { parts m with
      work := workPart (AgentPatch.writeWork agent m) } := by
  unfold AgentPatch.writeWork
  cases agent.workFields with
  | none => rfl
  | some work => exact parts_applyWork m work

end stages

section writes
variable (env : Surroundings) (patch : AgentPatch) (plan : Option PlanReference)
  (binding : Option WorktreeBinding) (m : SessionMetadata)

theorem writeAgent_frame :
    (parts (patch.writeAgent env plan binding m)).attention = (parts m).attention ∧
      (parts (patch.writeAgent env plan binding m)).others = (parts m).others := by
  unfold AgentPatch.writeAgent
  cases patch.agentMetadata with
  | none => exact ⟨rfl, rfl⟩
  | some agent =>
    simp only [parts_applyPlan, parts_applySummary, parts_writeWork, parts_writeBinding]
    exact ⟨trivial, trivial⟩

theorem writeAgent_work
    (h : ∀ agent, patch.agentMetadata = some agent → agent.workFields = none) :
    (parts (patch.writeAgent env plan binding m)).work = (parts m).work := by
  unfold AgentPatch.writeAgent
  cases agent : patch.agentMetadata with
  | none => rfl
  | some agent' =>
    have hwork : AgentPatch.writeWork agent' (AgentPatch.writeBinding agent' binding m)
        = AgentPatch.writeBinding agent' binding m := by
      unfold AgentPatch.writeWork
      rw [h agent' agent]
    simp only [hwork, parts_applyPlan, parts_applySummary, parts_writeBinding]

theorem writeAgent_summary
    (h : ∀ agent, patch.agentMetadata = some agent → agent.summary = .omitted) :
    (parts (patch.writeAgent env plan binding m)).summary = (parts m).summary := by
  unfold AgentPatch.writeAgent
  cases agent : patch.agentMetadata with
  | none => rfl
  | some agent' =>
    have hsummary (r : SessionMetadata) :
        applySummary agent'.summary env.summaryNow r = r := by
      rw [h agent' agent]
      rfl
    simp only [hsummary, parts_applyPlan, parts_writeWork, parts_writeBinding]

theorem writeAgent_planPath
    (h : ∀ agent, patch.agentMetadata = some agent →
      agent.planPath = .omitted ∨ (agent.planPath ≠ .clear ∧ (pinnedPlan m).isSome)) :
    (parts (patch.writeAgent env plan binding m)).planPath = (parts m).planPath := by
  unfold AgentPatch.writeAgent
  cases agent : patch.agentMetadata with
  | none => rfl
  | some agent' =>
    have hframe : (applySummary agent'.summary env.summaryNow
        (AgentPatch.writeWork agent' (AgentPatch.writeBinding agent' binding m))).planPath
          = m.planPath := by
      show (parts _).planPath = _
      rw [parts_applySummary, parts_writeWork, parts_writeBinding]
      rfl
    show (applyPlan agent'.planPath plan _).planPath = m.planPath
    rw [← hframe]
    cases update : agent'.planPath with
    | omitted => rfl
    | clear =>
      cases h agent' agent with
      | inl omitted => rw [update] at omitted; cases omitted
      | inr pinned => exact absurd update pinned.1
    | set path =>
      cases h agent' agent with
      | inl omitted => rw [update] at omitted; cases omitted
      | inr pinned =>
        unfold applyPlan
        rw [hframe, if_pos (any_of_pinned pinned.2)]
        exact hframe

theorem writeAgent_worktreeBinding
    (h : ∀ agent, patch.agentMetadata = some agent → agent.worktreePath = .omitted) :
    (parts (patch.writeAgent env plan binding m)).worktreeBinding = (parts m).worktreeBinding := by
  unfold AgentPatch.writeAgent
  cases agent : patch.agentMetadata with
  | none => rfl
  | some agent' =>
    have hbinding : AgentPatch.writeBinding agent' binding m = m := by
      unfold AgentPatch.writeBinding
      rw [h agent' agent]
      rfl
    simp only [hbinding, parts_applyPlan, parts_applySummary, parts_writeWork]

end writes

/-! ## What the checks let through -/

/-- What the record says to a patch whose checks have passed. -/
structure Allowed (patch : AgentPatch) (m : SessionMetadata) : Prop where
  attention : patch.attentionState.isSome = true →
    SourcePriority.canOverwrite "agent" m.attentionSource none = true
  work : ∀ agent, patch.agentMetadata = some agent → agent.workFields.isSome = true →
    SourcePriority.canOverwrite "agent" m.metadataSource none = true
  summary : ∀ agent, patch.agentMetadata = some agent → isOmitted agent.summary = false →
    SourcePriority.canOverwrite "agent" (m.provenance.summarySource.getD "unknown") none = true
  planPath : ∀ agent, patch.agentMetadata = some agent → agent.planPath = .clear →
    (pinnedPlan m).isSome = false

theorem overwrite_of_ok {guarded : Bool} {source : String}
    (h : requireOverwrite guarded source = .ok ()) (hguarded : guarded = true) :
    SourcePriority.canOverwrite "agent" source none = true := by
  unfold requireOverwrite at h
  subst hguarded
  cases allowed : SourcePriority.canOverwrite "agent" source none with
  | true => rfl
  | false =>
    rw [allowed] at h
    cases h

theorem allowed_of_validateCurrent {env : Surroundings} {store : Option BranchStore}
    {patch : AgentPatch} {plan : Option PlanReference}
    (h : AgentPatch.validateCurrent env store patch true m = .ok plan) : Allowed patch m := by
  unfold AgentPatch.validateCurrent at h
  obtain ⟨hattention, h⟩ := seq_eq_ok.mp h
  refine ⟨overwrite_of_ok hattention, ?_, ?_, ?_⟩
  all_goals
    intro agent hagent
    rw [hagent] at h
    obtain ⟨hwork, h⟩ := seq_eq_ok.mp h
    obtain ⟨hsummary, h⟩ := seq_eq_ok.mp h
    obtain ⟨_, -, h⟩ := bind_eq_ok.mp h
  · exact overwrite_of_ok hwork
  · intro named
    exact overwrite_of_ok hsummary (by rw [named]; rfl)
  · intro clear
    unfold AgentPatch.reportedPlan at h
    rw [clear] at h
    cases pinned : (pinnedPlan m).isSome with
    | false => rfl
    | true =>
      rw [pinned] at h
      cases h

theorem scoped_write (env : Surroundings) (patch : AgentPatch) (plan : Option PlanReference)
    (binding : Option WorktreeBinding) (m : SessionMetadata) :
    Scoped patch m (patch.writeAgent env plan binding (patch.writeAttention m)) where
  attention none := by
    rw [(writeAgent_frame env patch plan binding _).1]
    unfold AgentPatch.writeAttention
    rw [none]
  work h := by rw [writeAgent_work env patch plan binding _ h, parts_writeAttention]
  summary h := by rw [writeAgent_summary env patch plan binding _ h, parts_writeAttention]
  planPath h := by
    rw [writeAgent_planPath env patch plan binding _ (fun agent named => .inl (h agent named)),
      parts_writeAttention]
  worktreeBinding h := by
    rw [writeAgent_worktreeBinding env patch plan binding _ h, parts_writeAttention]
  others := by rw [(writeAgent_frame env patch plan binding _).2, parts_writeAttention]

/-- What the database gets back is a live record, the same in all but what a patch can name
and the time of the last activity. -/
theorem applyChecked_others {env : Surroundings} {patch : AgentPatch} {m' : SessionMetadata}
    (h : patch.applyChecked env m = .ok m') :
    m.lifecycle = "alive" ∧ unnamed m' = { unnamed m with lastActivity := env.activityNow } := by
  unfold AgentPatch.applyChecked at h
  rw [AgentPatch.apply_run] at h
  cases hchecks : patch.checks env none m with
  | error e => rw [hchecks] at h; cases h
  | ok found =>
    rw [hchecks] at h
    cases h
    obtain ⟨hlive, -⟩ := seq_eq_ok.mp hchecks
    have hothers := (scoped_write env patch found.1 found.2 m).others
    refine ⟨?_, congrArg (fun r => { r with lastActivity := env.activityNow }) hothers⟩
    unfold requireLive at hlive
    split at hlive
    · rename_i hall
      exact hall.1
    · cases hlive

theorem not_overwrite_user : SourcePriority.canOverwrite "agent" "user" none = false := by decide

theorem kept_write {env : Surroundings} {patch : AgentPatch} {m : SessionMetadata}
    (allowed : Allowed patch m) (plan : Option PlanReference) (binding : Option WorktreeBinding) :
    Kept m (patch.writeAgent env plan binding (patch.writeAttention m)) where
  attention user := by
    refine (scoped_write env patch plan binding m).attention ?_
    cases named : patch.attentionState with
    | none => rfl
    | some attention =>
      have hover := allowed.attention (by rw [named]; rfl)
      rw [user, not_overwrite_user] at hover
      cases hover
  work user := by
    refine (scoped_write env patch plan binding m).work (fun agent named => ?_)
    cases work : agent.workFields with
    | none => rfl
    | some fields =>
      have hover := allowed.work agent named (by rw [work]; rfl)
      rw [user, not_overwrite_user] at hover
      cases hover
  summary user := by
    refine (scoped_write env patch plan binding m).summary (fun agent named => ?_)
    have hover := allowed.summary agent named
    rw [user] at hover
    cases summary : agent.summary with
    | omitted => rfl
    | clear => exact absurd (hover (by rw [summary]; rfl)) (by decide)
    | set value => exact absurd (hover (by rw [summary]; rfl)) (by decide)
  planPath pinned := by
    have hpinned : (pinnedPlan (patch.writeAttention m)).isSome = true := by
      have hplan : (patch.writeAttention m).planPath = m.planPath := by
        show (parts _).planPath = _
        rw [parts_writeAttention]
        rfl
      unfold pinnedPlan
      rw [hplan]
      exact pinned
    rw [writeAgent_planPath env patch plan binding _ ?_, parts_writeAttention]
    intro agent named
    refine .inr ⟨fun clear => ?_, hpinned⟩
    rw [allowed.planPath agent named clear] at pinned
    cases pinned

/-- A failed patch leaves the record as it is. A patch that succeeds stamps the activity and
changes nothing else that it does not name, and nothing that the user owns or has pinned. -/
theorem apply_scoped (env : Surroundings) (store : Option BranchStore) (patch : AgentPatch)
    (m : SessionMetadata) :
    (∀ e, ((patch.apply env store).run.run m).1 = .error e →
      ((patch.apply env store).run.run m).2 = m) ∧
    (∀ plan, ((patch.apply env store).run.run m).1 = .ok plan →
      Scoped patch { m with lastActivity := env.activityNow }
        ((patch.apply env store).run.run m).2 ∧
      Kept m ((patch.apply env store).run.run m).2) := by
  rw [AgentPatch.apply_run]
  cases hchecks : patch.checks env store m with
  | error e => exact ⟨fun _ _ => rfl, fun _ h => (by cases h)⟩
  | ok found =>
    obtain ⟨plan, binding⟩ := found
    refine ⟨fun _ h => (by cases h), fun _ _ => ?_⟩
    obtain ⟨-, hcurrent⟩ := seq_eq_ok.mp hchecks
    obtain ⟨_, hcurrent, -⟩ := bind_eq_ok.mp hcurrent
    have hscoped := scoped_write env patch plan binding m
    have hkept := @kept_write env patch m (allowed_of_validateCurrent hcurrent) plan binding
    refine ⟨⟨hscoped.attention, hscoped.work, hscoped.summary, hscoped.planPath,
      hscoped.worktreeBinding, ?_⟩, hkept.attention, hkept.work, hkept.summary, hkept.planPath⟩
    exact congrArg (fun r => { r with lastActivity := env.activityNow }) hscoped.others

/-! A session at work, and the summary that its agent reports. -/

def sampleRecord : SessionMetadata where
  id := "s1"
  label := "s1"
  workspace := "/work"
  task := "task"
  cwd := "/work"
  status := "running"
  lifecyclePhase := "active"
  createdAt := "t0"
  lastActivity := "t1"
  metadataSource := "agent"
  metadataConfidence := .one

def sampleEnvelope : AgentPatchEnvelope where
  metadataRevision := 1
  patch := ⟨none, some ⟨none, .set "half done", .omitted, .omitted⟩⟩
  valid := by decide +kernel

def sampleSurroundings : Surroundings where
  resolveBinding _ _ := none
  validateBinding _ := none
  resolvePrintedPlanPath _ _ := none
  kindForPath _ := none
  identity _ := none
  summaryNow := "t2"
  activityNow := "t3"

theorem apply_scoped_summary :
    Scoped sampleEnvelope.patch { sampleRecord with lastActivity := "t3" }
      ((sampleEnvelope.patch.apply sampleSurroundings none).run.run sampleRecord).2 ∧
    ((sampleEnvelope.patch.apply sampleSurroundings none).run.run
      { sampleRecord with status := "ended" }).2 = { sampleRecord with status := "ended" } :=
  ⟨((apply_scoped sampleSurroundings none sampleEnvelope.patch sampleRecord).2 none rfl).1,
    (apply_scoped sampleSurroundings none sampleEnvelope.patch
      { sampleRecord with status := "ended" }).1 .unauthorized rfl⟩

/-- The time of the last activity is in no patch, and every patch that succeeds stamps it. -/
theorem apply_stamps_activity :
    ¬ ∀ (env : Surroundings) (store : Option BranchStore) (patch : AgentPatch)
        (m : SessionMetadata) (plan : Option PlanReference),
      ((patch.apply env store).run.run m).1 = .ok plan →
        Scoped patch m ((patch.apply env store).run.run m).2 := by
  intro h
  have others := (h sampleSurroundings none sampleEnvelope.patch sampleRecord none rfl).others
  have stamped : "t3" = "t1" := congrArg SessionMetadata.lastActivity others
  exact absurd stamped (by decide)

end Orkworksd.Metadata.AgentPatches
