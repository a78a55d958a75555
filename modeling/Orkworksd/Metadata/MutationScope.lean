import Orkworksd.Metadata.Mutations

/- What the internal mutations leave alone.

   The owner of a session's attention is told of a write only when the scope of the
   decision has `attention`, so a mutation that wrote attention outside that scope would
   lose a concurrent update. `Framed` says what a decision promises about the record; it
   is shown for every mutation by what its guards let through, and for the Peon merge
   stage by stage from the grant (`mergePeon_attention`, `mergePeon_work`,
   `mergePeon_summary`). -/
namespace Orkworksd.Metadata

/-- The fields an attention write owns: the observation, the question and where they
come from. -/
structure AttentionFields where
  observedStatus : Option String
  attention : Option String
  needsUserInput : Option Bool
  detectedQuestion : Option String
  suggestedOptions : Option (List String)
  source : Option String
  confidence : Option F64
  origin : Option String
  updatedAt : Option String
  deriving DecidableEq

def SessionMetadata.attentionFields (m : SessionMetadata) : AttentionFields :=
  { observedStatus := m.observedStatus
    attention := m.attention
    needsUserInput := m.needsUserInput
    detectedQuestion := m.detectedQuestion
    suggestedOptions := m.suggestedOptions
    source := m.provenance.attentionSource
    confidence := m.provenance.attentionConfidence
    origin := m.provenance.attentionOrigin
    updatedAt := m.provenance.attentionUpdatedAt }

/-- The fields that describe the work, with their provenance and the provider that
described it. -/
structure WorkFields where
  workPhase : String
  nextAction : Option String
  blockerDescription : Option String
  failedCommand : Option String
  failedTest : Option String
  capacityHints : Option (List String)
  harness : String
  model : String
  metadataSource : String
  metadataConfidence : F64
  workMetadataUpdatedAt : Option String
  providerId : Option String
  providerLabel : Option String
  providerModel : Option String
  providerState : Option String
  deriving DecidableEq

def SessionMetadata.workFields (m : SessionMetadata) : WorkFields :=
  { workPhase := m.workPhase
    nextAction := m.nextAction
    blockerDescription := m.blockerDescription
    failedCommand := m.failedCommand
    failedTest := m.failedTest
    capacityHints := m.capacityHints
    harness := m.harness
    model := m.model
    metadataSource := m.metadataSource
    metadataConfidence := m.metadataConfidence
    workMetadataUpdatedAt := m.provenance.workMetadataUpdatedAt
    providerId := m.providerId
    providerLabel := m.providerLabel
    providerModel := m.providerModel
    providerState := m.providerState }

/-- A failure or a decision without a scope leaves the record alone, and a scope without
attention leaves the attention fields alone. -/
structure Framed (m : SessionMetadata) (applied : Applied) : Prop where
  failed : ∀ e, applied.2 = .error e → applied.1 = m
  unscoped : ∀ d, applied.2 = .ok d → d.scope = none → applied.1 = m
  within : ∀ d s, applied.2 = .ok d → d.scope = some s → s.attention = false →
    applied.1.attentionFields = m.attentionFields

namespace Framed

theorem error (m : SessionMetadata) (e : ApplyError) : Framed m (m, .error e) :=
  ⟨fun _ _ => rfl, fun _ h => (by cases h), fun _ _ h => (by cases h)⟩

theorem ok {m m' : SessionMetadata} {d : Decision} (idle : d.scope = none → m' = m)
    (framed : m'.attentionFields = m.attentionFields) : Framed m (m', .ok d) := by
  refine ⟨fun _ h => (by cases h), fun d' h none => ?_, fun _ _ _ _ _ => framed⟩
  cases h
  exact idle none

theorem attention {m : SessionMetadata} {r : SessionMetadata × Bool}
    (idle : r.2 = false → r.1 = m) : Framed m (attentionDecision r) := by
  obtain ⟨m', accepted⟩ := r
  refine ⟨fun _ h => (by cases h), fun d h none => ?_, fun d s h scope quiet => ?_⟩
  · cases h
    cases accepted with
    | false => exact idle rfl
    | true => cases none
  · cases h
    cases accepted with
    | false => cases scope
    | true =>
      cases scope
      cases quiet

theorem fields {m : SessionMetadata} {applied : Applied} (framed : Framed m applied)
    (quiet : ∀ d s, applied.2 = .ok d → d.scope = some s → s.attention = false) :
    applied.1.attentionFields = m.attentionFields := by
  cases answer : applied.2 with
  | error e => rw [framed.failed e answer]
  | ok d =>
    cases scope : d.scope with
    | none => rw [framed.unscoped d answer scope]
    | some s => exact framed.within d s answer scope (quiet d s answer scope)

end Framed

/-! Waits and hooks. -/

section Attention

variable (m : SessionMetadata)

theorem showWait_idle (timestamp : String) (h : (applyNativeShowWait m timestamp).2 = false) :
    (applyNativeShowWait m timestamp).1 = m := by
  unfold applyNativeShowWait at h ⊢
  split at h
  · next guard => rw [if_pos guard]
  · cases h

theorem showWait_user (timestamp : String) (user : m.attentionSource = "user") :
    (applyNativeShowWait m timestamp).1 = m := by
  rw [applyNativeShowWait, if_pos (by simp [user])]

theorem clearWait_idle (timestamp : String) (h : (applyNativeClearWait m timestamp).2 = false) :
    (applyNativeClearWait m timestamp).1 = m := by
  unfold applyNativeClearWait at h ⊢
  split at h
  · next guard => rw [if_pos guard]
  · cases h

theorem clearWait_user (timestamp : String) (user : m.attentionSource = "user") :
    (applyNativeClearWait m timestamp).1 = m := by
  rw [applyNativeClearWait, if_pos (by simp [user])]

variable (root : String)

variable (waiting : Bool)

theorem hookCompletion_idle (timestamp : String)
    (h : (applyHookCompletion m root waiting timestamp).2 = false) :
    (applyHookCompletion m root waiting timestamp).1 = m := by
  by_cases guard : hookTupleMatches m root (if waiting then "working" else "waiting_for_input")
  · simp [applyHookCompletion, guard] at h
  · simp [applyHookCompletion, guard]

theorem hookCompletion_user (timestamp : String) (user : m.attentionSource = "user") :
    (applyHookCompletion m root waiting timestamp).1 = m := by
  rw [applyHookCompletion, if_pos (by simp [hookTupleMatches, user])]

variable (transition : HookTransition)

theorem hookTransition_idle (timestamp : String)
    (h : (applyHookTransition m root transition timestamp).2 = false) :
    (applyHookTransition m root transition timestamp).1 = m := by
  unfold applyHookTransition at h ⊢
  split at h
  · next guard => rw [if_pos guard]
  · next guard =>
    rw [if_neg guard]
    split at h
    · next fallback =>
      rw [if_pos fallback]
      split at h
      · next answered => rw [if_pos answered]
      · cases h
    · cases h

theorem hookTransition_user (timestamp : String) (user : m.attentionSource = "user") :
    (applyHookTransition m root transition timestamp).1 = m := by
  rw [applyHookTransition, if_pos (by simp [user])]

end Attention

/-! The Peon merge, stage by stage. -/

section Peon

variable {grant : PeonGrant} (inf : PeonInference) (timestamp : String)
  (provider : Option ProviderObservation) (historySummary : Option String) (policy : PeonPolicy)
  (m : SessionMetadata)

theorem mergePeon_attention (denied : grant.attention = false) :
    (mergePeon grant inf timestamp provider historySummary policy m).attentionFields
      = m.attentionFields := by
  have kept : reconcilePeonPrompt grant policy timestamp m = m := by
    rw [reconcilePeonPrompt, denied]
    rfl
  have observed : ∀ m, peonObserve grant policy inf m = m := fun m => by
    rw [peonObserve, denied]
    rfl
  have asked : ∀ m, peonQuestion grant policy inf m = m := fun m => by
    rw [peonQuestion, denied]
    rfl
  have worked : ∀ m, (peonWork grant inf provider m).attentionFields = m.attentionFields :=
    fun m => by
      unfold peonWork
      split <;> rfl
  have provided : ∀ m, (peonProvider grant provider m).attentionFields = m.attentionFields :=
    fun m => by
      unfold peonProvider
      split
      · split <;> rfl
      · rfl
  rw [mergePeon, provided, kept, observed, asked]
  calc _ = (peonWork grant inf provider m).attentionFields := by
        simp [peonProvenance, peonSummary, SessionMetadata.attentionFields, denied]
    _ = m.attentionFields := worked m

theorem mergePeon_work (denied : grant.work = false) :
    (mergePeon grant inf timestamp provider historySummary policy m).workFields = m.workFields := by
  have reconciled : ∀ m, (reconcilePeonPrompt grant policy timestamp m).workFields = m.workFields :=
    fun m => by
      unfold reconcilePeonPrompt
      split <;> rfl
  have observed : ∀ m, (peonObserve grant policy inf m).workFields = m.workFields := fun m => by
    unfold peonObserve
    split <;> rfl
  have asked : ∀ m, (peonQuestion grant policy inf m).workFields = m.workFields := fun m => by
    unfold peonQuestion
    split <;> rfl
  have worked : ∀ m, peonWork grant inf provider m = m := fun m => by
    rw [peonWork, denied]
    rfl
  have provided : ∀ m, peonProvider grant provider m = m := fun m => by
    unfold peonProvider
    split
    · rw [denied]
      rfl
    · rfl
  rw [mergePeon, provided, worked]
  calc _ = (peonQuestion grant policy inf (peonObserve grant policy inf
        (reconcilePeonPrompt grant policy timestamp m))).workFields := by
        simp [peonProvenance, peonSummary, SessionMetadata.workFields, denied]
    _ = m.workFields := by rw [asked, observed, reconciled]

theorem mergePeon_summary (denied : grant.summary = false) :
    (mergePeon grant inf timestamp provider historySummary policy m).summary = m.summary := by
  have reconciled : ∀ m, (reconcilePeonPrompt grant policy timestamp m).summary = m.summary :=
    fun m => by
      unfold reconcilePeonPrompt
      split <;> rfl
  have observed : ∀ m, (peonObserve grant policy inf m).summary = m.summary := fun m => by
    unfold peonObserve
    split <;> rfl
  have asked : ∀ m, (peonQuestion grant policy inf m).summary = m.summary := fun m => by
    unfold peonQuestion
    split <;> rfl
  have worked : ∀ m, (peonWork grant inf provider m).summary = m.summary := fun m => by
    unfold peonWork
    split <;> rfl
  have provided : ∀ m, (peonProvider grant provider m).summary = m.summary := fun m => by
    unfold peonProvider
    split
    · split <;> rfl
    · rfl
  rw [mergePeon, provided]
  simp only [peonProvenance, peonSummary, denied, Bool.false_eq_true, if_false]
  rw [worked, asked, observed, reconciled]

end Peon

theorem peon_yields_to_user (age : Option Nat) :
    SourcePriority.canOverwrite "peon" "user" age = false := by
  simp [SourcePriority.canOverwrite, SourcePriority.rank]

section Grant

variable (env : Env) (m : SessionMetadata) (inf : PeonInference) (historySummary : Option String)
  (policy : PeonPolicy)

theorem peonGrant_attention_user (user : m.attentionSource = "user") :
    (peonGrant env m inf historySummary policy).attention = false := by
  simp [peonGrant, user, peon_yields_to_user]

theorem peonGrant_work_user (user : m.metadataSource = "user") :
    (peonGrant env m inf historySummary policy).work = false := by
  simp [peonGrant, user, peon_yields_to_user]

theorem peonGrant_summary_owned
    (owned : m.provenance.summarySource = some "agent" ∨ m.provenance.summarySource = some "user") :
    (peonGrant env m inf historySummary policy).summary = false := by
  rcases owned with owned | owned <;> simp [peonGrant, owned]

theorem applyPeon_cases (timestamp : String) (provider : Option ProviderObservation) :
    ((applyPeon env m inf timestamp provider historySummary policy).1 = m
        ∧ (applyPeon env m inf timestamp provider historySummary policy).2.scope = none)
      ∨ ((applyPeon env m inf timestamp provider historySummary policy).1
          = mergePeon (peonGrant env m inf historySummary policy) inf timestamp provider
              historySummary policy m
        ∧ (applyPeon env m inf timestamp provider historySummary policy).2.scope
          = some
            { attention := (peonGrant env m inf historySummary policy).attention
              work := (peonGrant env m inf historySummary policy).work }) := by
  unfold applyPeon
  dsimp only
  split
  · exact .inl ⟨rfl, rfl⟩
  · split
    · exact .inl ⟨rfl, rfl⟩
    · exact .inr ⟨rfl, rfl⟩

end Grant

/-! Every mutation. -/

theorem lifecycle_framed (env : Env) (intent : LifecycleMutation) (m : SessionMetadata) :
    Framed m ((InternalMutation.lifecycle intent).apply env m) := by
  simp only [InternalMutation.apply]
  split
  · exact Framed.error m _
  · cases intent with
    | transition status hadLiveHandle alreadyEnding livePhase resume resumedFrom timestamp =>
      unfold LifecycleMutation.apply
      by_cases past : LifecycleMutation.superseded status hadLiveHandle alreadyEnding livePhase m
      · simp only [past, if_true]
        exact Framed.ok (fun _ => rfl) rfl
      · by_cases terminal : isTerminal status
        · simp only [past, terminal, if_true]
          exact Framed.attention (r := (_, true)) (fun h => (by cases h))
        · simp only [past, terminal]
          exact Framed.ok (fun h => (by cases h)) rfl
    | finalize snapshot fallbackStatus timestamp =>
      unfold LifecycleMutation.apply
      by_cases ended : m.lifecyclePhase == "ended"
      · simp only [ended, if_true]
        exact Framed.ok (fun _ => rfl) rfl
      · simp only [ended]
        exact Framed.attention (r := (_, true)) (fun h => (by cases h))

theorem peon_framed (env : Env) (m : SessionMetadata) (inf : PeonInference) (timestamp : String)
    (provider : Option ProviderObservation) (historySummary : Option String)
    (policy : PeonPolicy) :
    Framed m ((InternalMutation.peon inf timestamp provider historySummary policy).apply env m) := by
  simp only [InternalMutation.apply]
  split
  · exact Framed.error m _
  · obtain ⟨same, scope⟩ | ⟨merged, scope⟩ :=
      applyPeon_cases env m inf historySummary policy timestamp provider
    · refine ⟨fun e h => (by cases h), fun _ _ _ => same, fun d s h granted _ => ?_⟩
      cases h
      rw [scope] at granted
      cases granted
    · refine ⟨fun e h => (by cases h), fun d h none => ?_, fun d s h granted denied => ?_⟩
      · cases h
        rw [scope] at none
        cases none
      · cases h
        rw [scope] at granted
        cases granted
        change (applyPeon env m inf timestamp provider historySummary policy).1.attentionFields = _
        rw [merged]
        exact mergePeon_attention inf timestamp provider historySummary policy m denied

theorem harnessReport_framed (m : SessionMetadata) (report : HarnessSessionReport)
    (timestamp : String) (allow : Bool) :
    Framed m (applyHarnessReport m report timestamp allow) := by
  have merge : ((mergeHarnessReport m report timestamp allow).2.1 = false →
        (mergeHarnessReport m report timestamp allow).1 = m)
      ∧ (mergeHarnessReport m report timestamp allow).1.attentionFields = m.attentionFields := by
    unfold mergeHarnessReport
    dsimp only
    split
    · exact ⟨fun _ => rfl, rfl⟩
    · split
      · exact ⟨fun _ => rfl, rfl⟩
      · split
        · split
          · exact ⟨fun h => (by cases h), rfl⟩
          · exact ⟨fun _ => rfl, rfl⟩
        · exact ⟨fun h => (by cases h), rfl⟩
  unfold applyHarnessReport
  generalize mergeHarnessReport m report timestamp allow = merged at merge
  obtain ⟨m', changed, result⟩ := merged
  split
  · exact Framed.error m _
  · refine Framed.ok (fun unscoped => merge.1 ?_) merge.2
    cases changed with
    | false => rfl
    | true => cases unscoped

theorem codexLabel_framed (m : SessionMetadata) (root label : String) :
    Framed m (applyCodexLabel m root label) := by
  unfold applyCodexLabel
  split
  · exact Framed.error m _
  · dsimp only
    split
    · exact Framed.ok (fun h => (by cases h)) rfl
    · exact Framed.ok (fun _ => rfl) rfl

theorem userTitle_framed (env : Env) (m : SessionMetadata) (title : Option String) :
    Framed m (applyUserTitle env m title) := by
  unfold applyUserTitle
  dsimp only
  split
  · exact Framed.error m _
  · exact Framed.ok (fun h => (by cases h)) rfl

theorem apply_framed (env : Env) (mutation : InternalMutation) (m : SessionMetadata) :
    Framed m (mutation.apply env m) := by
  cases mutation with
  | lifecycle intent => exact lifecycle_framed env intent m
  | nativeShowWait timestamp => exact Framed.attention (showWait_idle m timestamp)
  | nativeClearWait timestamp => exact Framed.attention (clearWait_idle m timestamp)
  | hookTransition root transition timestamp =>
    exact Framed.attention (hookTransition_idle m root transition timestamp)
  | hookCompletion root waiting timestamp =>
    exact Framed.attention (hookCompletion_idle m root waiting timestamp)
  | peon inference timestamp provider historySummary policy =>
    exact peon_framed env m inference timestamp provider historySummary policy
  | harnessReport report timestamp allow => exact harnessReport_framed m report timestamp allow
  | codexLabel root label => exact codexLabel_framed m root label
  | providerContext provider => exact Framed.ok (fun h => (by cases h)) rfl
  | endingProviderContext provider =>
    simp only [InternalMutation.apply]
    split
    · exact Framed.ok (fun h => (by cases h)) rfl
    · exact Framed.ok (fun _ => rfl) rfl
  | userTitle title => exact userTitle_framed env m title

/-- Lifecycle transitions and finalisations. -/
def InternalMutation.isLifecycle : InternalMutation → Bool
  | .lifecycle _ => true
  | _ => false

theorem apply_quiet (env : Env) (m : SessionMetadata) :
    (∀ report timestamp allow d s, (applyHarnessReport m report timestamp allow).2 = .ok d →
        d.scope = some s → s.attention = false)
      ∧ (∀ root label d s, (applyCodexLabel m root label).2 = .ok d → d.scope = some s →
        s.attention = false)
      ∧ (∀ title d s, (applyUserTitle env m title).2 = .ok d → d.scope = some s →
        s.attention = false) := by
  refine ⟨fun report timestamp allow d s h scope => ?_, fun root label d s h scope => ?_,
    fun title d s h scope => ?_⟩
  · unfold applyHarnessReport at h
    generalize mergeHarnessReport m report timestamp allow = merged at h
    obtain ⟨m', changed, result⟩ := merged
    split at h
    · cases h
    · cases h
      cases changed <;> cases scope
      rfl
  · unfold applyCodexLabel at h
    split at h
    · cases h
    · cases h
      dsimp only at scope
      split at scope <;> cases scope
      rfl
  · unfold applyUserTitle at h
    dsimp only at h
    split at h
    · cases h
    · cases h
      cases scope
      rfl

theorem apply_user_attention (env : Env) (mutation : InternalMutation) (m : SessionMetadata)
    (internal : mutation.isLifecycle = false) (user : m.attentionSource = "user") :
    (mutation.apply env m).1.attentionFields = m.attentionFields := by
  have framed := apply_framed env mutation m
  cases mutation with
  | lifecycle intent => cases internal
  | nativeShowWait timestamp => exact congrArg _ (showWait_user m timestamp user)
  | nativeClearWait timestamp => exact congrArg _ (clearWait_user m timestamp user)
  | hookTransition root transition timestamp =>
    exact congrArg _ (hookTransition_user m root transition timestamp user)
  | hookCompletion root waiting timestamp =>
    exact congrArg _ (hookCompletion_user m root waiting timestamp user)
  | peon inference timestamp provider historySummary policy =>
    refine framed.fields (fun d s h scope => ?_)
    simp only [InternalMutation.apply] at h
    split at h
    · cases h
    · cases h
      obtain ⟨-, skipped⟩ | ⟨-, granted⟩ :=
        applyPeon_cases env m inference historySummary policy timestamp provider
      · rw [skipped] at scope
        cases scope
      · rw [granted] at scope
        cases scope
        exact peonGrant_attention_user env m inference historySummary policy user
  | harnessReport report timestamp allow =>
    exact framed.fields ((apply_quiet env m).1 report timestamp allow)
  | codexLabel root label => exact framed.fields ((apply_quiet env m).2.1 root label)
  | providerContext provider => rfl
  | endingProviderContext provider =>
    simp only [InternalMutation.apply]
    split <;> rfl
  | userTitle title => exact framed.fields ((apply_quiet env m).2.2 title)

theorem peon_respects_sources (env : Env) (m : SessionMetadata) (inf : PeonInference)
    (timestamp : String) (provider : Option ProviderObservation) (historySummary : Option String)
    (policy : PeonPolicy) :
    (m.metadataSource = "user" →
      ((InternalMutation.peon inf timestamp provider historySummary policy).apply env m).1.workFields
        = m.workFields)
    ∧ (m.provenance.summarySource = some "agent" ∨ m.provenance.summarySource = some "user" →
      ((InternalMutation.peon inf timestamp provider historySummary policy).apply env m).1.summary
        = m.summary) := by
  simp only [InternalMutation.apply]
  split
  · exact ⟨fun _ => rfl, fun _ => rfl⟩
  · change (_ → (applyPeon env m inf timestamp provider historySummary policy).1.workFields = _)
      ∧ (_ → (applyPeon env m inf timestamp provider historySummary policy).1.summary = _)
    obtain ⟨same, -⟩ | ⟨merged, -⟩ :=
      applyPeon_cases env m inf historySummary policy timestamp provider
    · rw [same]
      exact ⟨fun _ => rfl, fun _ => rfl⟩
    · rw [merged]
      exact ⟨fun user => mergePeon_work inf timestamp provider historySummary policy m
          (peonGrant_work_user env m inf historySummary policy user),
        fun owned => mergePeon_summary inf timestamp provider historySummary policy m
          (peonGrant_summary_owned env m inf historySummary policy owned)⟩

/-- Every internal mutation respects the scope of its decision, the user's attention, and
the sources that Peon may not overwrite. -/
theorem mutation_respects_scope (env : Env) (mutation : InternalMutation) (m : SessionMetadata) :
    ((∀ e, (mutation.apply env m).2 = .error e → (mutation.apply env m).1 = m)
      ∧ (∀ d, (mutation.apply env m).2 = .ok d → d.scope = none → (mutation.apply env m).1 = m))
    ∧ (∀ d s, (mutation.apply env m).2 = .ok d → d.scope = some s → s.attention = false →
        (mutation.apply env m).1.attentionFields = m.attentionFields)
    ∧ (mutation.isLifecycle = false → m.attentionSource = "user" →
        (mutation.apply env m).1.attentionFields = m.attentionFields)
    ∧ (∀ inf timestamp provider historySummary policy,
        mutation = .peon inf timestamp provider historySummary policy →
        (m.metadataSource = "user" → (mutation.apply env m).1.workFields = m.workFields)
        ∧ (m.provenance.summarySource = some "agent" ∨ m.provenance.summarySource = some "user" →
          (mutation.apply env m).1.summary = m.summary)) := by
  have framed := apply_framed env mutation m
  refine ⟨⟨framed.failed, framed.unscoped⟩, framed.within, apply_user_attention env mutation m, ?_⟩
  rintro inf timestamp provider historySummary policy rfl
  exact peon_respects_sources env m inf timestamp provider historySummary policy

end Orkworksd.Metadata
