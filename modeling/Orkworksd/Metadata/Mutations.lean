import Orkworksd.Metadata.Session
import Orkworksd.Lib.Text

/- The internal mutations of a session record (`metadata/internal_mutations.rs`,
   `metadata/lifecycle_mutations.rs`) and the source ladder they ask
   (`metadata::source_priority`).

   A mutation writes through `&mut SessionMetadata`, so each one here returns the record
   as it leaves it together with its answer, an error included. The ages that the Peon
   merge compares come from the clock and from chrono's parser, and `char::is_alphabetic`
   from the Unicode tables: all three are parameters (`Env`). -/
namespace Orkworksd.Metadata
open Orkworksd.Lib.Text

structure Env where
  workAgeSecs : Option String → Option Nat
  attentionAgeSecs : Option String → Option Nat
  isAlphabetic : Char → Bool

namespace SourcePriority

def peonAgentOverwriteSecs : Nat := 15

/-- `rank`; absent and unrecognised sources sit with `unknown`. -/
def rank (source : String) : Nat :=
  if source == "user" then 7
  else if source == "agent" || source == "codex_hook" then 6
  else if source == "peon" then 5
  else if source == "backend_inference" then 4
  else if source == "process" then 3
  else if source == "debug" then 1
  else 2

/-- `can_overwrite`. -/
def canOverwrite (incoming existing : String) (existingAgeSecsAgo : Option Nat) : Bool :=
  if incoming == "debug" then
    !(existing == "user" || existing == "agent" || existing == "codex_hook")
  else if incoming == "peon" && (existing == "agent" || existing == "codex_hook") then
    existingAgeSecsAgo.any (fun age => decide (peonAgentOverwriteSecs < age))
  else !decide (rank incoming < rank existing)

end SourcePriority

/-- `session_transactions::WriteScope`. -/
structure WriteScope where
  attention : Bool
  work : Bool
  deriving DecidableEq, Repr

namespace WriteScope
def ofAll : WriteScope := { attention := true, work := true }
def ofAttention : WriteScope := { attention := true, work := false }
def ofNone : WriteScope := { attention := false, work := false }
end WriteScope

structure ProviderObservation where
  providerId : String
  providerLabel : String
  providerModel : Option String
  providerState : String
  deriving DecidableEq, Repr

/-- `peon::PeonInference`, less the fields that no mutation reads. -/
structure PeonInference where
  observedStatus : Option String := none
  phase : Option String := none
  nextAction : Option String := none
  needsUserInput : Option Bool := none
  detectedQuestion : Option String := none
  suggestedOptions : Option (List String) := none
  blockerDescription : Option String := none
  failedCommand : Option String := none
  failedTest : Option String := none
  capacityHints : Option (List String) := none
  confidence : F64
  detectedHarness : Option String := none
  detectedModel : Option String := none
  deriving DecidableEq, Repr

inductive PeonPolicy where
  | infer
  | nonPrompt
  | preserveAttention
  | preserveHook (status : String) (confidence : F64) (source : String)
  deriving DecidableEq, Repr

inductive HookTransition where
  | activate | stop | userPromptSubmit | fallbackPermission
  deriving DecidableEq, Repr

structure HarnessSessionReport where
  harnessSessionId : String
  source : String
  confidence : F64
  deriving DecidableEq, Repr

inductive LifecycleMutation where
  | transition (status : String) (hadLiveHandle alreadyEnding : Bool) (livePhase : Option String)
      (resume : Option ResumeMemory) (resumedFrom : Option String) (timestamp : String)
  | finalize (snapshot : ObservedStatusSnapshotMetadata) (fallbackStatus timestamp : String)
  deriving DecidableEq, Repr

/-- `InternalMutation`. The instant that a native clear started at is read by its caller
and not by the mutation. -/
inductive InternalMutation where
  | lifecycle (intent : LifecycleMutation)
  | nativeShowWait (timestamp : String)
  | nativeClearWait (timestamp : String)
  | hookTransition (root : String) (transition : HookTransition) (timestamp : String)
  | hookCompletion (root : String) (waiting : Bool) (timestamp : String)
  | peon (inference : PeonInference) (timestamp : String) (provider : Option ProviderObservation)
      (historySummary : Option String) (policy : PeonPolicy)
  | harnessReport (report : HarnessSessionReport) (timestamp : String)
      (allowCodexIdentityReplacement : Bool)
  | codexLabel (root label : String)
  | providerContext (provider : ProviderObservation)
  | endingProviderContext (provider : ProviderObservation)
  | userTitle (title : Option String)
  deriving DecidableEq, Repr

inductive HarnessSessionMergeResult where
  | accepted | ignoredLowerConfidence | ignoredIdentityChange | ignoredUnchanged
  deriving DecidableEq, Repr

inductive Disposition where
  | applied
  | nativeLabel (accepted : Bool)
  | peonSkipped (permanentHold : Bool)
  | harnessReport (result : HarnessSessionMergeResult)
  deriving DecidableEq, Repr

structure Decision where
  scope : Option WriteScope
  disposition : Disposition
  deriving DecidableEq, Repr

inductive ApplyError where
  | invalidInput (message : String)
  /-- A slice inside a character. -/
  | panicked
  deriving DecidableEq, Repr

/-- The record as the mutation leaves it, and its answer. -/
abbrev Applied := SessionMetadata × Except ApplyError Decision

/-- A mutation that answers with a `bool`, committed under the attention scope. -/
def attentionDecision : SessionMetadata × Bool → Applied
  | (m, accepted) =>
    (m, .ok { scope := if accepted then some .ofAttention else none, disposition := .applied })

/-! Lifecycle mutations. -/

/-- `session_view::connectivity_for_status`. -/
def connectivityForStatus (status : String) : String :=
  if status == "creating" || status == "running" then "online" else "offline"

/-- `session_view::terminal_outcome_for_status`. -/
def terminalOutcomeForStatus (status : String) : Option String :=
  if isTerminal status then some status else none

namespace LifecycleMutation

def valid : LifecycleMutation → Bool
  | .transition status .. => status == "creating" || status == "running" || isTerminal status
  | .finalize snapshot fallbackStatus _ =>
    isTerminal fallbackStatus && snapshot.confidence.all F64.isFinite

/-- The transitions that the record or the live handle is already past. -/
def superseded (status : String) (hadLiveHandle alreadyEnding : Bool) (livePhase : Option String)
    (m : SessionMetadata) : Bool :=
  (isTerminal status && alreadyEnding
      && (m.lifecyclePhase == "ending" || m.lifecyclePhase == "ended"))
    || (isTerminal status && m.lifecyclePhase == "ended"
      && (!hadLiveHandle || livePhase == some "ended"
        || (livePhase == some "ending" && isTerminal m.status)))
    || (!isTerminal status && (livePhase == some "ending" || livePhase == some "ended"))
    || (!hadLiveHandle && (m.lifecyclePhase == "ending" || m.lifecyclePhase == "ended"))

/-- A terminal status begins the ending and freezes what was observed. -/
def beginEnding (status timestamp : String) (m : SessionMetadata) : SessionMetadata :=
  { m with
    status := "running"
    lifecyclePhase := "ending"
    lifecycle := "stopping"
    attention := none
    connectivity := connectivityForStatus "running"
    terminalOutcome := none
    pendingTerminalStatus := some status
    endingObservedStatusSnapshot := some
      { attentionOrigin := some m.attentionOrigin
        value := m.observedStatus
        source := m.attentionSource
        confidence := some m.attentionConfidence
        observedAt := some timestamp }
    observedStatus := none }

def beginLive (status : String) (m : SessionMetadata) : SessionMetadata :=
  { m with
    status := status
    lifecyclePhase := if status == "creating" then "creating" else "active"
    lifecycle := if status == "creating" then "creating" else "alive"
    connectivity := connectivityForStatus status
    terminalOutcome := terminalOutcomeForStatus status }

def apply : LifecycleMutation → SessionMetadata → SessionMetadata × Option WriteScope
  | .transition status hadLiveHandle alreadyEnding livePhase resume resumedFrom timestamp, m =>
    if superseded status hadLiveHandle alreadyEnding livePhase m then (m, none)
    else
      let moved := if isTerminal status then beginEnding status timestamp m else beginLive status m
      ({ moved with
          lastActivity := timestamp
          resume := resume.or moved.resume
          resumedFrom := resumedFrom.or moved.resumedFrom },
        some (if isTerminal status then .ofAttention else .ofNone))
  | .finalize snapshot fallbackStatus timestamp, m =>
    if m.lifecyclePhase == "ended" then (m, none)
    else
      let pending := m.pendingTerminalStatus.getD fallbackStatus
      ({ m with
          status := pending
          lifecyclePhase := "ended"
          lifecycle := "dead"
          attention := none
          connectivity := connectivityForStatus pending
          terminalOutcome := terminalOutcomeForStatus pending
          pendingTerminalStatus := none
          endingObservedStatusSnapshot := none
          finalObservedStatusSnapshot := some snapshot
          observedStatus := none
          lastActivity := timestamp },
        some .ofAttention)

end LifecycleMutation

/-! Waits and hooks. -/

def applyNativeShowWait (m : SessionMetadata) (timestamp : String) : SessionMetadata × Bool :=
  if m.lifecycle != "alive" || m.attentionSource == "user" || m.attention == some "needs_you"
      || m.needsUserInput == some true || m.detectedQuestion.isSome
      || m.suggestedOptions.isSome then (m, false)
  else
    ({ m with
        observedStatus := some "waiting_for_input"
        attention := some "needs_you"
        provenance := { m.provenance with
          attentionSource := some "agent"
          attentionConfidence := some .one
          attentionOrigin := some "native_codex" }
        lastActivity := timestamp }, true)

def applyNativeClearWait (m : SessionMetadata) (timestamp : String) : SessionMetadata × Bool :=
  if m.lifecycle != "alive" || m.observedStatus != some "waiting_for_input"
      || m.attention != some "needs_you" || m.attentionSource != "agent"
      || m.attentionOrigin != "native_codex" || !m.attentionConfidence.eq .one
      || m.needsUserInput.isSome || m.detectedQuestion.isSome
      || m.suggestedOptions.isSome then (m, false)
  else
    ({ m with
        observedStatus := some "working"
        attention := some "working"
        lastActivity := timestamp }, true)

def hookTupleMatches (m : SessionMetadata) (root status : String) : Bool :=
  m.lifecycle == "alive" && m.lifecyclePhase == "active" && m.status == "running"
    && m.harness == "codex" && m.harnessRoot == some root && m.observedStatus == some status
    && m.attention == canonicalAttention (some status) && m.attentionSource == "agent"
    && m.attentionOrigin == "harness_hook" && m.attentionConfidence.eq .one
    && m.needsUserInput.isNone && m.detectedQuestion.isNone && m.suggestedOptions.isNone

def applyHookCompletion (m : SessionMetadata) (root : String) (waiting : Bool)
    (timestamp : String) : SessionMetadata × Bool :=
  let previous := if waiting then "working" else "waiting_for_input"
  let next := if waiting then "waiting_for_input" else "working"
  if !hookTupleMatches m root previous then (m, false)
  else
    ({ m with
        observedStatus := some next
        attention := canonicalAttention (some next)
        needsUserInput := none
        detectedQuestion := none
        suggestedOptions := none
        lastActivity := timestamp }, true)

/-- What a relay transition other than the permission fallback observes. -/
def HookTransition.observed : HookTransition → Option String
  | .activate => none
  | .stop => some "idle"
  | .userPromptSubmit => some "working"
  | .fallbackPermission => some "waiting_for_input"

def hookProvenance (m : SessionMetadata) : SessionMetadata :=
  { m with
    provenance := { m.provenance with
      attentionSource := some "agent"
      attentionConfidence := some .one
      attentionOrigin := some "harness_hook" } }

def applyHookTransition (m : SessionMetadata) (root : String) (transition : HookTransition)
    (timestamp : String) : SessionMetadata × Bool :=
  if m.lifecycle != "alive" || m.lifecyclePhase != "active" || m.harness != "codex"
      || m.harnessSessionIdSource != some "codex_hook" || m.harnessRoot != some root
      || m.attentionSource == "user" then (m, false)
  else if transition == .fallbackPermission then
    if m.needsUserInput == some true || m.detectedQuestion.isSome then (m, false)
    else
      (hookProvenance { m with
        observedStatus := some "waiting_for_input"
        attention := some "needs_you" }, true)
  else
    (hookProvenance { m with
      observedStatus := transition.observed
      attention := transition.observed
      needsUserInput := none
      detectedQuestion := none
      suggestedOptions := none
      lastActivity := timestamp }, true)

/-! Labels, provider context and the harness identity. -/

def applyProvider (m : SessionMetadata) (provider : ProviderObservation) : SessionMetadata :=
  { m with
    providerId := some provider.providerId
    providerLabel := some provider.providerLabel
    providerModel := provider.providerModel
    providerState := some provider.providerState }

def normalizeUserTitle (title : String) : Except ApplyError String :=
  let trimmed := trim title.toList
  if title.toList.any isControl || trimmed.isEmpty || decide (100 < trimmed.length) then
    .error (.invalidInput "invalid session title")
  else .ok (String.ofList trimmed)

/-- `peon::is_descriptive_input`. -/
def isDescriptiveInput (env : Env) (line : String) : Bool :=
  let trimmed := trim line.toList
  decide (3 < trimmed.length)
    && !(trimmed.head?.any (fun c => ['/', '!', ':', '#'].contains c))
    && trimmed.any env.isAlphabetic

/-- `session_types::placeholder_label`. -/
def placeholderLabel (id : String) : Except ApplyError String :=
  match takeBytes 8 id.toList with
  | some start => .ok ("Session " ++ String.ofList start)
  | none => .error .panicked

/-- The label that clearing the user's title falls back on. -/
def fallbackLabel (env : Env) (m : SessionMetadata) : Except ApplyError (String × LabelSource) :=
  match m.lastUserInput.filter (isDescriptiveInput env) with
  | some input => .ok (String.ofList (input.toList.take 100), .terminalInput)
  | none => (placeholderLabel m.id).map (·, .placeholder)

def applyUserTitle (env : Env) (m : SessionMetadata) (title : Option String) : Applied :=
  let chosen :=
    match title with
    | some title => (normalizeUserTitle title).map (·, LabelSource.user)
    | none => fallbackLabel env m
  match chosen with
  | .error e => (m, .error e)
  | .ok (label, source) =>
    ({ m with
        label := label
        labelSource := source
        labelFromInitialPrompt := false
        labelContextRefined := false },
      .ok { scope := some .ofNone, disposition := .applied })

def applyCodexLabel (m : SessionMetadata) (root label : String) : Applied :=
  if (trim label.toList).isEmpty || label.toList.any isControl
      || decide (100 < label.toList.length) then
    (m, .error (.invalidInput "invalid native title"))
  else
    let accepted := m.harness == "codex" && m.lifecycle == "alive" && m.lifecyclePhase == "active"
      && m.labelSource.isAutomatic && m.harnessRoot == some root
    let changed := accepted && (m.label != label || m.labelSource != .codex)
    (if changed then
        { m with label := label, labelSource := .codex, labelFromInitialPrompt := false }
      else m,
      .ok
        { scope := if changed then some .ofNone else none
          disposition := .nativeLabel accepted })

def harnessSessionIdMinLen : Nat := 3
def harnessSessionIdMaxLen : Nat := 512

/-- `valid_harness_session_id`; the bounds are on bytes. -/
def validHarnessSessionId (id : String) : Bool :=
  !id.isEmpty && decide (harnessSessionIdMinLen ≤ id.utf8ByteSize)
    && decide (id.utf8ByteSize ≤ harnessSessionIdMaxLen) && !id.toList.any isWhitespace

def validHarnessSessionReport (report : HarnessSessionReport) : Bool :=
  validHarnessSessionId report.harnessSessionId && !(trim report.source.toList).isEmpty
    && F64.zero.le report.confidence && report.confidence.le .one

/-- The memory that an accepted identity is written into. -/
def rememberHarness (report : HarnessSessionReport) (timestamp : String)
    (resume : Option ResumeMemory) : ResumeMemory :=
  let resume := resume.getD
    { state := .available
      preferredStrategy := .none
      harnessSessionId := none
      latestFallback := true
      lastSeenAt := none }
  { resume with
    state := .available
    harnessSessionId := some report.harnessSessionId
    lastSeenAt := some timestamp
    preferredStrategy :=
      if resume.preferredStrategy == .none then .exact else resume.preferredStrategy }

/-- The merge inside `apply_harness_report`: the record, whether it changed, and the
result to report. -/
def mergeHarnessReport (m : SessionMetadata) (report : HarnessSessionReport) (timestamp : String)
    (allowCodexIdentityReplacement : Bool) :
    SessionMetadata × Bool × HarnessSessionMergeResult :=
  let existingConfidence := m.harnessSessionIdConfidence.getD .negOne
  let existingId := m.harnessRoot
  if existingId.isSome && report.confidence.lt existingConfidence then
    (m, false, .ignoredLowerConfidence)
  else if m.harness == "codex" && existingId.any (fun id => id != report.harnessSessionId)
      && !allowCodexIdentityReplacement then
    (m, false, .ignoredIdentityChange)
  else if existingId == some report.harnessSessionId
      && m.harnessSessionIdSource == some report.source
      && F64.optionEq m.harnessSessionIdConfidence (some report.confidence) then
    match m.resume with
    | some resume =>
      ({ m with resume := some { resume with lastSeenAt := some timestamp } }, true,
        .ignoredUnchanged)
    | none => (m, false, .ignoredUnchanged)
  else
    ({ m with
        resume := some (rememberHarness report timestamp m.resume)
        harnessSessionIdSource := some report.source
        harnessSessionIdConfidence := some report.confidence
        harnessSessionIdCapturedAt := some timestamp }, true, .accepted)

def applyHarnessReport (m : SessionMetadata) (report : HarnessSessionReport) (timestamp : String)
    (allowCodexIdentityReplacement : Bool) : Applied :=
  if !validHarnessSessionReport report then
    (m, .error (.invalidInput "invalid harness identity report"))
  else
    let (merged, changed, result) :=
      mergeHarnessReport m report timestamp allowCodexIdentityReplacement
    (merged,
      .ok
        { scope := if changed then some .ofNone else none
          disposition := .harnessReport result })

/-! The Peon merge. -/

/-- `peon::is_terminal_observed_status`. -/
def isTerminalObservedStatus (observed : Option String) : Bool :=
  observed.any (fun status =>
    ["idle", "stale", "done", "waiting_for_input", "blocked", "failed"].contains status)

/-- Whether the record still holds the hook observation that the policy protects. -/
def protectedHookMatches (m : SessionMetadata) : PeonPolicy → Bool
  | .preserveHook status confidence source =>
    let source := if source == "codex_hook" then "agent" else source
    let origin := m.attentionOrigin
    let validatedOrigin := origin == "harness_hook" || origin == "native_codex"
      || (origin == "legacy_unknown" && (source == "claude_hook" || source == "copilot_hook"))
      || (origin == "process" && source == "process")
    m.observedStatus == some status && m.attentionSource == source
      && m.attentionConfidence.eq confidence && validatedOrigin
  | _ => false

def PeonPolicy.infers (policy : PeonPolicy) : Bool :=
  !(policy == .nonPrompt || policy == .preserveAttention)

/-- What one Peon inference may write. -/
structure PeonGrant where
  attention : Bool
  work : Bool
  summary : Bool
  deriving DecidableEq, Repr

/-- An observer cannot resume a terminal observed status to working. -/
def resumesTerminal (m : SessionMetadata) (inf : PeonInference) (policy : PeonPolicy) : Bool :=
  policy.infers && inf.observedStatus == some "working" && isTerminalObservedStatus m.observedStatus

def peonGrant (env : Env) (m : SessionMetadata) (inf : PeonInference)
    (historySummary : Option String) (policy : PeonPolicy) : PeonGrant :=
  { attention :=
      !(policy == .preserveAttention) && !protectedHookMatches m policy
        && SourcePriority.canOverwrite "peon" m.attentionSource
          (env.attentionAgeSecs m.provenance.attentionUpdatedAt)
        && !resumesTerminal m inf policy
    work := SourcePriority.canOverwrite "peon" m.metadataSource
      (env.workAgeSecs m.provenance.workMetadataUpdatedAt)
    summary := historySummary.isSome && m.metadataSource != "user"
      && !(m.provenance.summarySource == some "agent" || m.provenance.summarySource == some "user") }

/-- The fields that the reconciled prompt is compared by. -/
def promptFields (m : SessionMetadata) :
    Option String × Option String × Option Bool × Option String × Option (List String) :=
  (m.observedStatus, m.attention, m.needsUserInput, m.detectedQuestion, m.suggestedOptions)

/-- The record with its prompt taken back. -/
def clearedPrompt (m : SessionMetadata) : SessionMetadata :=
  let observed := if m.observedStatus == some "waiting_for_input" then none else m.observedStatus
  { m with
    observedStatus := observed
    attention := if m.lifecycle == "alive" then canonicalAttention observed else m.attention
    needsUserInput := none
    detectedQuestion := none
    suggestedOptions := none }

/-- A non-prompt observation takes back a prompt that no user, agent or hook owns. -/
def reconcilePeonPrompt (grant : PeonGrant) (policy : PeonPolicy) (timestamp : String)
    (m : SessionMetadata) : SessionMetadata :=
  if grant.attention && policy == .nonPrompt
      && !(m.attentionSource == "user" || m.attentionSource == "agent"
        || m.attentionSource == "codex_hook") then
    { clearedPrompt m with
      lastActivity :=
        if promptFields m != promptFields (clearedPrompt m) then timestamp else m.lastActivity }
  else m

/-- The fields that drive the situation headline. -/
def situation (m : SessionMetadata) :
    Option String × String × Option String × Option String × Option String × Option String
      × Option (List String) × Option String × Option String :=
  (m.observedStatus, m.workPhase, m.summary, m.nextAction, m.detectedQuestion,
    m.blockerDescription, m.suggestedOptions, m.failedCommand, m.failedTest)

def peonObserve (grant : PeonGrant) (policy : PeonPolicy) (inf : PeonInference)
    (m : SessionMetadata) : SessionMetadata :=
  if grant.attention && policy != .preserveAttention then
    let taken := policy != .nonPrompt
      || (inf.observedStatus != some "waiting_for_input"
        && !(inf.observedStatus == some "working" && isTerminalObservedStatus m.observedStatus))
    let observed := if taken then inf.observedStatus.or m.observedStatus else m.observedStatus
    { m with
      observedStatus := observed
      attention := if m.lifecycle == "alive" then canonicalAttention observed else m.attention }
  else m

def peonQuestion (grant : PeonGrant) (policy : PeonPolicy) (inf : PeonInference)
    (m : SessionMetadata) : SessionMetadata :=
  if grant.attention && policy.infers then
    let incoming := inf.detectedQuestion.filter (fun q => !q.isEmpty)
    let options :=
      if incoming.isSome && incoming != m.detectedQuestion then none else m.suggestedOptions
    { m with
      needsUserInput := inf.needsUserInput.or m.needsUserInput
      detectedQuestion := incoming.or m.detectedQuestion
      suggestedOptions := inf.suggestedOptions.or options }
  else m

/-- The work fields, written before and after the question in the source: the two
groups of assignments read and write nothing of each other's. -/
def peonWork (grant : PeonGrant) (inf : PeonInference) (provider : Option ProviderObservation)
    (m : SessionMetadata) : SessionMetadata :=
  if grant.work then
    { m with
      workPhase := (inf.phase.map normalizeWorkPhase).getD m.workPhase
      nextAction := inf.nextAction.or m.nextAction
      blockerDescription := inf.blockerDescription.or m.blockerDescription
      failedCommand := inf.failedCommand.or m.failedCommand
      failedTest := inf.failedTest.or m.failedTest
      capacityHints := inf.capacityHints.or m.capacityHints
      harness := if m.harness.isEmpty then inf.detectedHarness.getD m.harness else m.harness
      model :=
        if m.model.isEmpty && !(inf.detectedModel.isSome
            && (provider.bind (·.providerModel)) == inf.detectedModel) then
          inf.detectedModel.getD m.model
        else m.model }
  else m

def peonSummary (grant : PeonGrant) (historySummary : Option String) (m : SessionMetadata) :
    SessionMetadata :=
  { m with summary := if grant.summary then historySummary.or m.summary else m.summary }

def peonProvenance (grant : PeonGrant) (inf : PeonInference) (timestamp : String)
    (m : SessionMetadata) : SessionMetadata :=
  { m with
    metadataSource := if grant.work then "peon" else m.metadataSource
    metadataConfidence := if grant.work then inf.confidence else m.metadataConfidence
    provenance := { m.provenance with
      attentionSource := if grant.attention then some "peon" else m.provenance.attentionSource
      attentionConfidence :=
        if grant.attention then some inf.confidence else m.provenance.attentionConfidence
      attentionOrigin := if grant.attention then some "peon" else m.provenance.attentionOrigin
      summarySource := if grant.summary then some "peon" else m.provenance.summarySource
      summaryConfidence :=
        if grant.summary then some inf.confidence else m.provenance.summaryConfidence
      summaryObservedAt :=
        if grant.summary then some timestamp else m.provenance.summaryObservedAt } }

def peonProvider (grant : PeonGrant) (provider : Option ProviderObservation)
    (m : SessionMetadata) : SessionMetadata :=
  match provider with
  | some p => if grant.work then applyProvider m p else m
  | none => m

/-- The writes of one granted inference, in the order of the source. -/
def mergePeon (grant : PeonGrant) (inf : PeonInference) (timestamp : String)
    (provider : Option ProviderObservation) (historySummary : Option String) (policy : PeonPolicy)
    (m : SessionMetadata) : SessionMetadata :=
  let before := reconcilePeonPrompt grant policy timestamp m
  let after := peonSummary grant historySummary (peonWork grant inf provider
    (peonQuestion grant policy inf (peonObserve grant policy inf before)))
  let after :=
    { after with
      lastActivity := if situation after != situation before then timestamp else after.lastActivity
      peonLastInference := some timestamp }
  peonProvider grant provider (peonProvenance grant inf timestamp after)

def applyPeon (env : Env) (m : SessionMetadata) (inf : PeonInference) (timestamp : String)
    (provider : Option ProviderObservation) (historySummary : Option String)
    (policy : PeonPolicy) : SessionMetadata × Decision :=
  let grant := peonGrant env m inf historySummary policy
  if resumesTerminal m inf policy && inf.nextAction.isNone && inf.blockerDescription.isNone
      && inf.failedCommand.isNone && inf.failedTest.isNone && inf.capacityHints.isNone then
    (m, { scope := none, disposition := .peonSkipped false })
  else if !grant.work && !grant.attention && !grant.summary then
    (m, { scope := none
          disposition := .peonSkipped
            (m.metadataSource == "user" && m.attentionSource == "user") })
  else
    (mergePeon grant inf timestamp provider historySummary policy m,
      { scope := some { attention := grant.attention, work := grant.work }
        disposition := .applied })

/-- The policy's own confidence, checked with the inference's. -/
def PeonPolicy.isFinite : PeonPolicy → Bool
  | .preserveHook _ confidence _ => confidence.isFinite
  | _ => true

namespace InternalMutation

def apply (env : Env) : InternalMutation → SessionMetadata → Applied
  | .lifecycle intent, m =>
    if !intent.valid then (m, .error (.invalidInput "invalid lifecycle intent"))
    else
      let (moved, scope) := intent.apply m
      (moved, .ok { scope, disposition := .applied })
  | .nativeShowWait timestamp, m => attentionDecision (applyNativeShowWait m timestamp)
  | .nativeClearWait timestamp, m => attentionDecision (applyNativeClearWait m timestamp)
  | .hookTransition root transition timestamp, m =>
    attentionDecision (applyHookTransition m root transition timestamp)
  | .hookCompletion root waiting timestamp, m =>
    attentionDecision (applyHookCompletion m root waiting timestamp)
  | .peon inference timestamp provider historySummary policy, m =>
    if !inference.confidence.isFinite || !policy.isFinite then
      (m, .error (.invalidInput "non-finite metadata confidence"))
    else
      let (merged, decision) := applyPeon env m inference timestamp provider historySummary policy
      (merged, .ok decision)
  | .harnessReport report timestamp allowCodexIdentityReplacement, m =>
    applyHarnessReport m report timestamp allowCodexIdentityReplacement
  | .codexLabel root label, m => applyCodexLabel m root label
  | .endingProviderContext provider, m =>
    if m.lifecyclePhase == "ending" then
      (applyProvider m provider, .ok { scope := some .ofNone, disposition := .applied })
    else (m, .ok { scope := none, disposition := .applied })
  | .providerContext provider, m =>
    (applyProvider m provider, .ok { scope := some .ofNone, disposition := .applied })
  | .userTitle title, m => applyUserTitle env m title

end InternalMutation

end Orkworksd.Metadata
