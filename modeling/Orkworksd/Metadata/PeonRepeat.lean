import Orkworksd.Metadata.MutationScope

/- The same inference applied twice (`apply_peon` of `metadata/internal_mutations.rs`).

   A stage of the merge writes what it would write again (`Settled`), so the second merge
   moves the two timestamps and nothing else. The grant is computed from the record as the
   first merge has left it, and there it goes wrong in two ways:

     1. `TakenOver`: a non-prompt inference takes the attention over from an agent or a hook
        and leaves the prompt; as the attention's owner the second one takes the prompt back.
     2. `Released`: the attention is withheld for the source or the confidence of the work,
        which the first merge replaces.

   `applyPeon_repeats` says that these two are all there is. -/
namespace Orkworksd.Metadata

variable {m : SessionMetadata}

/-- The second record is the first one but for the times of the last inference and of the
summary's observation. -/
def Repeats (m m' : SessionMetadata) : Prop :=
  m' = { m with
    peonLastInference := m'.peonLastInference
    provenance := { m.provenance with summaryObservedAt := m'.provenance.summaryObservedAt } }

theorem Repeats.lastActivity {m' : SessionMetadata} (h : Repeats m m') :
    m'.lastActivity = m.lastActivity := by
  rw [h]

/-- There is something of a prompt for a non-prompt inference to take back, behind what it
has observed itself. -/
def Prompted (m : SessionMetadata) (inf : PeonInference) : Prop :=
  m.needsUserInput ≠ none ∨ m.detectedQuestion ≠ none ∨ m.suggestedOptions ≠ none ∨
    (m.observedStatus = some "waiting_for_input" ∧
      (inf.observedStatus = none ∨ inf.observedStatus = some "waiting_for_input" ∨
        inf.observedStatus = some "working"))

structure TakenOver (env : Env) (m : SessionMetadata) (inf : PeonInference)
    (historySummary : Option String) (policy : PeonPolicy) : Prop where
  nonPrompt : policy = .nonPrompt
  granted : (peonGrant env m inf historySummary policy).attention = true
  owner : m.attentionSource = "agent" ∨ m.attentionSource = "codex_hook"
  prompted : Prompted m inf

structure Released (env : Env) (m : SessionMetadata) (inf : PeonInference)
    (historySummary : Option String) (policy : PeonPolicy) : Prop where
  work : (peonGrant env m inf historySummary policy).work = true
  withheld : (peonGrant env m inf historySummary policy).attention = false
  granted : (peonGrant env { m with metadataSource := "peon", metadataConfidence := inf.confidence }
    inf historySummary policy).attention = true

/-! ## The stages -/

section stages
variable {grant : PeonGrant} {inf : PeonInference} {provider : Option ProviderObservation}
  {historySummary : Option String} {policy : PeonPolicy}

/-- The status that `peonObserve` leaves. -/
def statusAfter (policy : PeonPolicy) (inf : PeonInference) (status : Option String) :
    Option String :=
  if policy != .nonPrompt || (inf.observedStatus != some "waiting_for_input"
      && !(inf.observedStatus == some "working" && isTerminalObservedStatus status)) then
    inf.observedStatus.or status
  else status

theorem peonObserve_granted (hgrant : grant.attention = true)
    (hpolicy : policy ≠ .preserveAttention) (m : SessionMetadata) : peonObserve grant policy inf m =
      { m with
        observedStatus := statusAfter policy inf m.observedStatus
        attention := if m.lifecycle == "alive" then
            canonicalAttention (statusAfter policy inf m.observedStatus) else m.attention } := by
  have hguard : (grant.attention && policy != .preserveAttention) = true := by
    simp [hgrant, hpolicy]
  rw [peonObserve, if_pos hguard]
  rfl

theorem statusAfter_settles (status : Option String) :
    statusAfter policy inf (statusAfter policy inf status) = statusAfter policy inf status := by
  have htaken (status : Option String) : statusAfter policy inf status = status ∨
      statusAfter policy inf status = inf.observedStatus.or status := by
    rw [statusAfter]
    split
    · exact .inr rfl
    · exact .inl rfl
  obtain hkept | hobserved := htaken status
  · rw [hkept, hkept]
  · rw [hobserved]
    cases hinf : inf.observedStatus with
    | none =>
      rw [hinf] at hobserved
      exact hobserved
    | some observed =>
      -- what was observed is observed again, or kept
      obtain hkept | hagain := htaken (some observed)
      · exact hkept
      · rw [Option.some_or, hagain, hinf, Option.some_or]

/-- The record names the inference as the source of what is granted to it. -/
structure Claimed (grant : PeonGrant) (inf : PeonInference) (provider : Option ProviderObservation)
    (m : SessionMetadata) : Prop where
  work : grant.work = true → m.metadataSource = "peon" ∧ m.metadataConfidence = inf.confidence
  attention : grant.attention = true → m.provenance.attentionSource = some "peon" ∧
    m.provenance.attentionConfidence = some inf.confidence ∧
    m.provenance.attentionOrigin = some "peon"
  summary : grant.summary = true → m.provenance.summarySource = some "peon" ∧
    m.provenance.summaryConfidence = some inf.confidence
  provider : grant.work = true → ∀ p, provider = some p →
    m.providerId = some p.providerId ∧ m.providerLabel = some p.providerLabel ∧
      m.providerModel = p.providerModel ∧ m.providerState = some p.providerState

/-- And the stages have nothing to write to it that it does not hold. -/
structure Settled (grant : PeonGrant) (policy : PeonPolicy) (inf : PeonInference)
    (provider : Option ProviderObservation) (historySummary : Option String)
    (m : SessionMetadata) : Prop where
  observe : peonObserve grant policy inf m = m
  question : peonQuestion grant policy inf m = m
  work : peonWork grant inf provider m = m
  summary : peonSummary grant historySummary m = m
  claimed : Claimed grant inf provider m

theorem Claimed.peonProvenance (h : Claimed grant inf provider m)
    (timestamp : String) : peonProvenance grant inf timestamp m =
      { m with provenance := { m.provenance with
          summaryObservedAt :=
            if grant.summary then some timestamp else m.provenance.summaryObservedAt } } := by
  have hsource : (if grant.work then "peon" else m.metadataSource) = m.metadataSource := by
    split
    · next hwork => exact (h.work hwork).1.symm
    · rfl
  have hconfidence : (if grant.work then inf.confidence else m.metadataConfidence) =
      m.metadataConfidence := by
    split
    · next hwork => exact (h.work hwork).2.symm
    · rfl
  have hattention : (if grant.attention then some "peon" else m.provenance.attentionSource) =
      m.provenance.attentionSource := by
    split
    · next hgrant => exact (h.attention hgrant).1.symm
    · rfl
  have hattentionConfidence : (if grant.attention then some inf.confidence
      else m.provenance.attentionConfidence) = m.provenance.attentionConfidence := by
    split
    · next hgrant => exact (h.attention hgrant).2.1.symm
    · rfl
  have horigin : (if grant.attention then some "peon" else m.provenance.attentionOrigin) =
      m.provenance.attentionOrigin := by
    split
    · next hgrant => exact (h.attention hgrant).2.2.symm
    · rfl
  have hsummary : (if grant.summary then some "peon" else m.provenance.summarySource) =
      m.provenance.summarySource := by
    split
    · next hgrant => exact (h.summary hgrant).1.symm
    · rfl
  have hsummaryConfidence : (if grant.summary then some inf.confidence
      else m.provenance.summaryConfidence) = m.provenance.summaryConfidence := by
    split
    · next hgrant => exact (h.summary hgrant).2.symm
    · rfl
  rw [Metadata.peonProvenance, hsource, hconfidence, hattention, hattentionConfidence, horigin,
    hsummary, hsummaryConfidence]

theorem Claimed.peonProvider (h : Claimed grant inf provider m) :
    peonProvider grant provider m = m := by
  cases provider with
  | none => rfl
  | some p =>
    show (if grant.work then applyProvider m p else m) = m
    split
    · next hwork =>
      obtain ⟨hid, hlabel, hmodel, hstate⟩ := h.provider hwork p rfl
      rw [applyProvider, ← hid, ← hlabel, ← hmodel, ← hstate]
    · rfl

/-- Where the stages have settled, a merge that has no prompt to take back writes the two
timestamps. -/
theorem mergePeon_settled (h : Settled grant policy inf provider historySummary m)
    {timestamp : String} (hprompt : reconcilePeonPrompt grant policy timestamp m = m) :
    Repeats m (mergePeon grant inf timestamp provider historySummary policy m) := by
  have hsame : (situation m != situation m) = false := by simp
  have hclaimed : Claimed grant inf provider { m with peonLastInference := some timestamp } :=
    ⟨h.claimed.work, h.claimed.attention, h.claimed.summary, h.claimed.provider⟩
  rw [mergePeon, hprompt, h.observe, h.question, h.work, h.summary]
  simp only [hsame, Bool.false_eq_true, if_false]
  rw [hclaimed.peonProvenance, Claimed.peonProvider]
  · rfl
  · exact ⟨h.claimed.work, h.claimed.attention, h.claimed.summary, h.claimed.provider⟩

/-! ## What the first merge leaves -/

/-- The prompt fields, and what the merge looks at with them. -/
def promptState (m : SessionMetadata) :
    Option String × Option String × Option Bool × Option String × Option (List String) × String :=
  (m.observedStatus, m.attention, m.needsUserInput, m.detectedQuestion, m.suggestedOptions,
    m.lifecycle)

section merged
variable (timestamp : String) (m : SessionMetadata)

/-- The record behind the question, from which on the prompt is left alone. -/
def asked (grant : PeonGrant) (policy : PeonPolicy) (inf : PeonInference) (timestamp : String)
    (m : SessionMetadata) : SessionMetadata :=
  peonQuestion grant policy inf (peonObserve grant policy inf
    (reconcilePeonPrompt grant policy timestamp m))

theorem promptState_merge :
    promptState (mergePeon grant inf timestamp provider historySummary policy m) =
      promptState (asked grant policy inf timestamp m) := by
  have hwork (m : SessionMetadata) :
      promptState (peonWork grant inf provider m) = promptState m := by
    unfold peonWork
    split <;> rfl
  have hprovider (m : SessionMetadata) : promptState (peonProvider grant provider m) =
      promptState m := by
    unfold peonProvider
    split
    · split <;> rfl
    · rfl
  rw [mergePeon, hprovider]
  exact hwork _

/-- The work fields that the inference describes. -/
def described (m : SessionMetadata) :
    String × Option String × Option String × Option String × Option String ×
      Option (List String) × String × String :=
  (m.workPhase, m.nextAction, m.blockerDescription, m.failedCommand, m.failedTest,
    m.capacityHints, m.harness, m.model)

variable {m' : SessionMetadata}

theorem described_work {m : SessionMetadata} (h : described m = described m') :
    described (peonWork grant inf provider m) = described (peonWork grant inf provider m') := by
  simp only [described, Prod.mk.injEq] at h
  obtain ⟨hphase, hnext, hblocker, hcommand, htest, hcapacity, hharness, hmodel⟩ := h
  unfold peonWork
  split
  · simp only [described, hphase, hnext, hblocker, hcommand, htest, hcapacity, hharness, hmodel]
  · simp only [described, hphase, hnext, hblocker, hcommand, htest, hcapacity, hharness, hmodel]

theorem described_merge :
    described (mergePeon grant inf timestamp provider historySummary policy m) =
      described (peonWork grant inf provider m) := by
  have hprovider (m : SessionMetadata) : described (peonProvider grant provider m) =
      described m := by
    unfold peonProvider
    split
    · split <;> rfl
    · rfl
  have hasked : described (asked grant policy inf timestamp m) = described m := by
    unfold asked peonQuestion peonObserve reconcilePeonPrompt
    split <;> split <;> split <;> rfl
  rw [mergePeon, hprovider]
  exact described_work hasked

theorem summary_merge :
    (mergePeon grant inf timestamp provider historySummary policy m).summary =
      if grant.summary then historySummary.or m.summary else m.summary := by
  have hprovider (m : SessionMetadata) : (peonProvider grant provider m).summary = m.summary := by
    unfold peonProvider
    split
    · split <;> rfl
    · rfl
  have hwork (m : SessionMetadata) : (peonWork grant inf provider m).summary = m.summary := by
    unfold peonWork
    split <;> rfl
  have hasked : (asked grant policy inf timestamp m).summary = m.summary := by
    unfold asked peonQuestion peonObserve reconcilePeonPrompt
    split <;> split <;> split <;> rfl
  rw [mergePeon, hprovider]
  show (if grant.summary then historySummary.or (peonWork grant inf provider
    (asked grant policy inf timestamp m)).summary else (peonWork grant inf provider
    (asked grant policy inf timestamp m)).summary) = _
  rw [hwork, hasked]

/-- Where the record says that its fields come from. -/
def sources (m : SessionMetadata) : MetadataProvenance × String × F64 :=
  (m.provenance, m.metadataSource, m.metadataConfidence)

theorem sources_provenance {m : SessionMetadata} (h : sources m = sources m') :
    sources (peonProvenance grant inf timestamp m) =
      sources (peonProvenance grant inf timestamp m') := by
  simp only [sources, Prod.mk.injEq] at h
  obtain ⟨hprovenance, hsource, hconfidence⟩ := h
  simp only [sources, peonProvenance, hprovenance, hsource, hconfidence]

theorem sources_merge :
    sources (mergePeon grant inf timestamp provider historySummary policy m) =
      sources (peonProvenance grant inf timestamp m) := by
  have hprovider (m : SessionMetadata) : sources (peonProvider grant provider m) = sources m := by
    unfold peonProvider
    split
    · split <;> rfl
    · rfl
  have hwork (m : SessionMetadata) : sources (peonWork grant inf provider m) = sources m := by
    unfold peonWork
    split <;> rfl
  have hasked : sources (asked grant policy inf timestamp m) = sources m := by
    unfold asked peonQuestion peonObserve reconcilePeonPrompt
    split <;> split <;> split <;> rfl
  rw [mergePeon, hprovider]
  exact sources_provenance timestamp ((hwork _).trans hasked)

theorem claimed_merge :
    Claimed grant inf provider
      (mergePeon grant inf timestamp provider historySummary policy m) := by
  have hprovenance (m : SessionMetadata) : Claimed grant inf none
      (peonProvenance grant inf timestamp m) := by
    refine ⟨fun hwork => ?_, fun hattention => ?_, fun hsummary => ?_, fun _ p hp => ?_⟩
    · simp [peonProvenance, hwork]
    · simp [peonProvenance, hattention]
    · simp [peonProvenance, hsummary]
    · exact absurd hp (Option.some_ne_none p).symm
  have hprovider {m : SessionMetadata} (h : Claimed grant inf none m) :
      Claimed grant inf provider (peonProvider grant provider m) := by
    cases provider with
    | none => exact h
    | some p =>
      show Claimed grant inf (some p) (if grant.work then applyProvider m p else m)
      split
      · refine ⟨h.work, h.attention, h.summary, fun _ q hq => ?_⟩
        rw [← Option.some.inj hq]
        exact ⟨rfl, rfl, rfl, rfl⟩
      · next hwork => exact ⟨h.work, h.attention, h.summary, fun hwork' => absurd hwork' hwork⟩
  exact hprovider (hprovenance _)

/-! ## The first merge settles -/

theorem filled_settles (c : String → Bool) (o : Option String) {x y : String}
    (h : y = if c x then o.getD x else x) : (if c y then o.getD y else y) = y := by
  cases o with
  | none => exact ite_self _
  | some v =>
    by_cases hx : c x = true
    · rw [if_pos hx] at h
      rw [h]
      exact ite_self _
    · rw [if_neg hx] at h
      rw [h, if_neg hx]

theorem or_settles {α : Type} {x y z : Option α} (h : y = x.or z) : x.or y = y := by
  rw [h]
  cases x <;> rfl

theorem peonWork_settled {m : SessionMetadata}
    (h : described m' = described (peonWork grant inf provider m)) :
    peonWork grant inf provider m' = m' := by
  by_cases hwork : grant.work = true
  · rw [peonWork, if_pos hwork] at h
    simp only [described, Prod.mk.injEq] at h
    obtain ⟨hphase, hnext, hblocker, hcommand, htest, hcapacity, hharness, hmodel⟩ := h
    have hphase' : (inf.phase.map normalizeWorkPhase).getD m'.workPhase = m'.workPhase := by
      rw [hphase]
      cases inf.phase <;> rfl
    have hharness' := filled_settles String.isEmpty inf.detectedHarness hharness
    have hmodel' := filled_settles (fun model => model.isEmpty && !(inf.detectedModel.isSome
      && (provider.bind (·.providerModel)) == inf.detectedModel)) inf.detectedModel hmodel
    rw [peonWork, if_pos hwork, hphase', or_settles hnext, or_settles hblocker,
      or_settles hcommand, or_settles htest, or_settles hcapacity, hharness', hmodel']
  · rw [peonWork, if_neg hwork]

theorem peonQuestion_settled {m : SessionMetadata}
    (h : promptState m' = promptState (peonQuestion grant policy inf m)) :
    peonQuestion grant policy inf m' = m' := by
  by_cases hasks : (grant.attention && policy.infers) = true
  · rw [peonQuestion, if_pos hasks] at h
    simp only [promptState, Prod.mk.injEq] at h
    obtain ⟨-, -, hneeds, hquestion, hoptions, -⟩ := h
    -- the question that came is the one that is held now, so that its options stay
    have hsame : ((inf.detectedQuestion.filter (fun q => !q.isEmpty)).isSome &&
        inf.detectedQuestion.filter (fun q => !q.isEmpty) != m'.detectedQuestion) = false := by
      rw [hquestion]
      cases inf.detectedQuestion.filter (fun q => !q.isEmpty) with
      | none => rfl
      | some q => simp
    rw [peonQuestion, if_pos hasks]
    simp only [hsame, Bool.false_eq_true, if_false]
    rw [or_settles hneeds, or_settles hquestion, or_settles hoptions]
  · rw [peonQuestion, if_neg hasks]

theorem peonObserve_settled {m : SessionMetadata} (hlifecycle : m'.lifecycle = m.lifecycle)
    (hstatus : m'.observedStatus = (peonObserve grant policy inf m).observedStatus)
    (hattention : m'.attention = (peonObserve grant policy inf m).attention) :
    peonObserve grant policy inf m' = m' := by
  by_cases hobserves : grant.attention = true ∧ policy ≠ .preserveAttention
  · obtain ⟨hgrant, hpolicy⟩ := hobserves
    rw [peonObserve_granted hgrant hpolicy] at hstatus hattention
    have hstatus' : statusAfter policy inf m'.observedStatus = m'.observedStatus := by
      rw [hstatus, statusAfter_settles]
    rw [peonObserve_granted hgrant hpolicy, hstatus']
    have hattention' : (if m'.lifecycle == "alive" then canonicalAttention m'.observedStatus
        else m'.attention) = m'.attention := by
      split
      · next halive =>
        rw [hlifecycle] at halive
        rw [hattention, hstatus]
        exact (if_pos halive).symm
      · rfl
    rw [hattention']
  · rw [peonObserve, if_neg (by simpa using hobserves)]

theorem summary_settled {m : SessionMetadata}
    (h : m'.summary = if grant.summary then historySummary.or m.summary else m.summary) :
    peonSummary grant historySummary m' = m' := by
  have hsummary : (if grant.summary then historySummary.or m'.summary else m'.summary) =
      m'.summary := by
    split
    · next hgrant =>
      rw [if_pos hgrant] at h
      exact or_settles h
    · rfl
  rw [peonSummary, hsummary]

theorem observed_merge :
    (mergePeon grant inf timestamp provider historySummary policy m).lifecycle =
        (reconcilePeonPrompt grant policy timestamp m).lifecycle ∧
      (mergePeon grant inf timestamp provider historySummary policy m).observedStatus =
        (peonObserve grant policy inf
          (reconcilePeonPrompt grant policy timestamp m)).observedStatus ∧
      (mergePeon grant inf timestamp provider historySummary policy m).attention =
        (peonObserve grant policy inf
          (reconcilePeonPrompt grant policy timestamp m)).attention := by
  have hprompt : promptState (mergePeon grant inf timestamp provider historySummary policy m) =
      promptState (asked grant policy inf timestamp m) := promptState_merge timestamp m
  simp only [promptState, Prod.mk.injEq] at hprompt
  obtain ⟨hstatus, hattention, -, -, -, halive⟩ := hprompt
  rw [hstatus, hattention, halive]
  unfold asked peonQuestion peonObserve
  split <;> split <;> exact ⟨rfl, rfl, rfl⟩

theorem mergePeon_settles :
    Settled grant policy inf provider historySummary
      (mergePeon grant inf timestamp provider historySummary policy m) := by
  obtain ⟨hlifecycle, hstatus, hattention⟩ :
      (mergePeon grant inf timestamp provider historySummary policy m).lifecycle = _ ∧
        (mergePeon grant inf timestamp provider historySummary policy m).observedStatus = _ ∧
        (mergePeon grant inf timestamp provider historySummary policy m).attention = _ :=
    observed_merge timestamp m
  exact ⟨peonObserve_settled hlifecycle hstatus hattention,
    peonQuestion_settled (promptState_merge timestamp m),
    peonWork_settled (described_merge timestamp m), summary_settled (summary_merge timestamp m),
    claimed_merge timestamp m⟩

end merged

end stages

/-! ## The second grant -/

theorem PeonGrant.ext_of {grant grant' : PeonGrant}
    (hattention : grant.attention = grant'.attention) (hwork : grant.work = grant'.work)
    (hsummary : grant.summary = grant'.summary) : grant = grant' := by
  obtain ⟨attention, work, summary⟩ := grant
  obtain ⟨attention', work', summary'⟩ := grant'
  rw [PeonGrant.mk.injEq]
  exact ⟨hattention, hwork, hsummary⟩

theorem canOverwrite_own (age : Option Nat) :
    SourcePriority.canOverwrite "peon" "peon" age = true := by
  simp [SourcePriority.canOverwrite, SourcePriority.rank]

section again
variable (env : Env) (m : SessionMetadata) (inf : PeonInference) (timestamp : String)
  (provider : Option ProviderObservation) (historySummary : Option String) (policy : PeonPolicy)

/-- The record after the first merge. -/
def merged : SessionMetadata :=
  mergePeon (peonGrant env m inf historySummary policy) inf timestamp provider historySummary
    policy m

theorem merged_claimed : Claimed (peonGrant env m inf historySummary policy) inf provider
    (merged env m inf timestamp provider historySummary policy) := claimed_merge timestamp m

theorem grant_work : (peonGrant env (merged env m inf timestamp provider historySummary policy)
    inf historySummary policy).work = (peonGrant env m inf historySummary policy).work := by
  by_cases hwork : (peonGrant env m inf historySummary policy).work = true
  · rw [hwork]
    show SourcePriority.canOverwrite "peon"
      (merged env m inf timestamp provider historySummary policy).metadataSource _ = true
    rw [((merged_claimed env m inf timestamp provider historySummary policy).work hwork).1,
      canOverwrite_own]
  · have hfields := mergePeon_work inf timestamp provider historySummary policy m
      (Bool.eq_false_of_not_eq_true hwork)
    have hsource : (merged env m inf timestamp provider historySummary policy).metadataSource =
        m.metadataSource := congrArg WorkFields.metadataSource hfields
    have hupdated : (merged env m inf timestamp provider historySummary
        policy).provenance.workMetadataUpdatedAt = m.provenance.workMetadataUpdatedAt :=
      congrArg WorkFields.workMetadataUpdatedAt hfields
    show SourcePriority.canOverwrite "peon" _ (env.workAgeSecs _) = _
    rw [hsource, hupdated]
    rfl

theorem merged_sources : sources (merged env m inf timestamp provider historySummary policy) =
    sources (peonProvenance (peonGrant env m inf historySummary policy) inf timestamp m) :=
  sources_merge timestamp m

theorem grant_summary : (peonGrant env (merged env m inf timestamp provider historySummary policy)
    inf historySummary policy).summary = (peonGrant env m inf historySummary policy).summary := by
  have hsources := merged_sources env m inf timestamp provider historySummary policy
  simp only [sources, Prod.mk.injEq] at hsources
  obtain ⟨hprovenance, hsource, -⟩ := hsources
  have huser : (merged env m inf timestamp provider historySummary policy).metadataSource = "user" ↔
      m.metadataSource = "user" := by
    rw [hsource, peonProvenance]
    by_cases hwork : (peonGrant env m inf historySummary policy).work = true
    · simp only [if_pos hwork]
      constructor
      · intro h
        exact absurd h (by decide)
      · intro h
        rw [peonGrant_work_user env m inf historySummary policy h] at hwork
        exact absurd hwork Bool.false_ne_true
    · simp only [if_neg hwork]
  have hsummary : (merged env m inf timestamp provider historySummary
      policy).provenance.summarySource =
        if (peonGrant env m inf historySummary policy).summary then some "peon"
        else m.provenance.summarySource := by
    rw [hprovenance]
    rfl
  have hgrant (m : SessionMetadata) : (peonGrant env m inf historySummary policy).summary =
      (historySummary.isSome && m.metadataSource != "user" &&
        !(m.provenance.summarySource == some "agent" ||
          m.provenance.summarySource == some "user")) := rfl
  have huser' : ((merged env m inf timestamp provider historySummary policy).metadataSource !=
      "user") = (m.metadataSource != "user") := by
    rw [Bool.eq_iff_iff, bne_iff_ne, bne_iff_ne, ne_eq, huser]
  by_cases hsome : (peonGrant env m inf historySummary policy).summary = true
  · rw [hsome, hgrant, hsummary, if_pos hsome, huser']
    rw [hgrant] at hsome
    simp only [Bool.and_eq_true] at hsome
    rw [hsome.1.1, hsome.1.2]
    rfl
  · rw [hgrant, hsummary, if_neg hsome, huser', hgrant]

theorem grant_attention_congr {m m' : SessionMetadata}
    (hfields : m'.attentionFields = m.attentionFields)
    (hsource : m'.metadataSource = m.metadataSource)
    (hconfidence : m'.metadataConfidence = m.metadataConfidence) :
    (peonGrant env m' inf historySummary policy).attention =
      (peonGrant env m inf historySummary policy).attention := by
  have hstatus : m'.observedStatus = m.observedStatus :=
    congrArg AttentionFields.observedStatus hfields
  have hfrom : m'.provenance.attentionSource = m.provenance.attentionSource :=
    congrArg AttentionFields.source hfields
  have hsure : m'.provenance.attentionConfidence = m.provenance.attentionConfidence :=
    congrArg AttentionFields.confidence hfields
  have horigin : m'.provenance.attentionOrigin = m.provenance.attentionOrigin :=
    congrArg AttentionFields.origin hfields
  have hupdated : m'.provenance.attentionUpdatedAt = m.provenance.attentionUpdatedAt :=
    congrArg AttentionFields.updatedAt hfields
  have hprotected : protectedHookMatches m' policy = protectedHookMatches m policy := by
    cases policy <;> simp only [protectedHookMatches, SessionMetadata.attentionSource,
      SessionMetadata.attentionOrigin, SessionMetadata.attentionConfidence, hstatus, hfrom, hsure,
      horigin, hsource, hconfidence]
  simp only [peonGrant, hprotected, SessionMetadata.attentionSource, hfrom, hsource, hupdated,
    resumesTerminal, hstatus]

theorem grant_attention_withheld
    (hwithheld : (peonGrant env m inf historySummary policy).attention = false) :
    (peonGrant env (merged env m inf timestamp provider historySummary policy) inf historySummary
      policy).attention = true ↔ Released env m inf historySummary policy := by
  have hfields : (merged env m inf timestamp provider historySummary policy).attentionFields =
      m.attentionFields :=
    mergePeon_attention inf timestamp provider historySummary policy m hwithheld
  have hsources := merged_sources env m inf timestamp provider historySummary policy
  simp only [sources, Prod.mk.injEq] at hsources
  obtain ⟨-, hsource, hconfidence⟩ := hsources
  by_cases hwork : (peonGrant env m inf historySummary policy).work = true
  · simp only [peonProvenance, if_pos hwork] at hsource hconfidence
    have hcongr := grant_attention_congr env inf historySummary policy
      (m := { m with metadataSource := "peon", metadataConfidence := inf.confidence })
      hfields hsource hconfidence
    rw [hcongr]
    exact ⟨fun h => ⟨hwork, hwithheld, h⟩, fun h => h.granted⟩
  · simp only [peonProvenance, if_neg hwork] at hsource hconfidence
    rw [grant_attention_congr env inf historySummary policy hfields hsource hconfidence, hwithheld]
    exact ⟨fun h => absurd h Bool.false_ne_true, fun h => absurd h.work hwork⟩

theorem grant_attention_granted
    (hgrant : (peonGrant env m inf historySummary policy).attention = true) :
    (peonGrant env (merged env m inf timestamp provider historySummary policy) inf historySummary
      policy).attention = true := by
  have hclaimed := merged_claimed env m inf timestamp provider historySummary policy
  obtain ⟨hfrom, -, horigin⟩ := hclaimed.attention hgrant
  have hsource : (merged env m inf timestamp provider historySummary policy).attentionSource =
      "peon" := by
    rw [SessionMetadata.attentionSource, hfrom]
    rfl
  have hpolicy : policy ≠ .preserveAttention := by
    intro h
    rw [h] at hgrant
    exact absurd hgrant Bool.false_ne_true
  have hprotected : protectedHookMatches
      (merged env m inf timestamp provider historySummary policy) policy = false := by
    cases policy <;>
      simp [protectedHookMatches, SessionMetadata.attentionOrigin, horigin]
  have hresumes : resumesTerminal (merged env m inf timestamp provider historySummary policy) inf
      policy = false := by
    refine Bool.eq_false_of_not_eq_true (fun hresumes => ?_)
    simp only [resumesTerminal, Bool.and_eq_true, beq_iff_eq] at hresumes
    obtain ⟨⟨hinfers, hworking⟩, hterminal⟩ := hresumes
    have hprompt : policy ≠ .nonPrompt := by
      intro h
      rw [h] at hinfers
      exact absurd hinfers Bool.false_ne_true
    -- an inference of working that was granted has been observed
    have hstatus : (merged env m inf timestamp provider historySummary policy).observedStatus =
        some "working" := by
      rw [merged, (observed_merge timestamp m).2.1, peonObserve_granted hgrant hpolicy]
      show statusAfter policy inf _ = _
      rw [statusAfter, if_pos (by simp [hprompt]), hworking]
      rfl
    rw [hstatus] at hterminal
    exact absurd hterminal (by decide)
  show (!(policy == .preserveAttention) && !protectedHookMatches _ policy &&
    SourcePriority.canOverwrite "peon" _ _ && !resumesTerminal _ inf policy) = true
  rw [hprotected, hsource, canOverwrite_own, hresumes]
  simp [hpolicy]

end again

/-! ## The prompt that is taken back -/

/-- Nothing of a prompt is left. -/
structure Promptless (m : SessionMetadata) : Prop where
  needsUserInput : m.needsUserInput = none
  detectedQuestion : m.detectedQuestion = none
  suggestedOptions : m.suggestedOptions = none
  observedStatus : m.observedStatus ≠ some "waiting_for_input"

section prompt
variable {grant : PeonGrant} {inf : PeonInference} {provider : Option ProviderObservation}
  {historySummary : Option String} {m : SessionMetadata} {timestamp : String}

theorem statusAfter_waiting (status : Option String) :
    statusAfter .nonPrompt inf status = some "waiting_for_input" ↔
      status = some "waiting_for_input" ∧ (inf.observedStatus = none ∨
        inf.observedStatus = some "waiting_for_input" ∨ inf.observedStatus = some "working") := by
  rw [statusAfter]
  cases hinf : inf.observedStatus with
  | none => simp
  | some observed =>
    by_cases hwaiting : observed = "waiting_for_input"
    · simp [hwaiting]
    · by_cases hworking : observed = "working"
      · by_cases hstatus : status = some "waiting_for_input"
        · simp [hworking, hstatus, isTerminalObservedStatus]
        · simp only [hworking, hstatus, false_and, iff_false]
          split
          · simp
          · exact hstatus
      · simp [hwaiting, hworking]

theorem promptState_nonPrompt (hgrant : grant.attention = true) :
    promptState (mergePeon grant inf timestamp provider historySummary .nonPrompt m) =
      (let r := reconcilePeonPrompt grant .nonPrompt timestamp m
      (statusAfter .nonPrompt inf r.observedStatus,
        if r.lifecycle == "alive" then
            canonicalAttention (statusAfter .nonPrompt inf r.observedStatus)
          else r.attention,
        r.needsUserInput, r.detectedQuestion, r.suggestedOptions, r.lifecycle)) := by
  have hquestion (m : SessionMetadata) : peonQuestion grant .nonPrompt inf m = m := by
    rw [peonQuestion, if_neg (by simp [PeonPolicy.infers])]
  rw [promptState_merge, asked, hquestion, peonObserve_granted hgrant (by decide)]
  rfl

theorem promptless_of_owner (hgrant : grant.attention = true)
    (howner : m.attentionSource ≠ "user" ∧ m.attentionSource ≠ "agent" ∧
      m.attentionSource ≠ "codex_hook") :
    Promptless (mergePeon grant inf timestamp provider historySummary .nonPrompt m) := by
  have hreconcile : reconcilePeonPrompt grant .nonPrompt timestamp m =
      { clearedPrompt m with
        lastActivity :=
          if promptFields m != promptFields (clearedPrompt m) then timestamp
          else m.lastActivity } := by
    rw [reconcilePeonPrompt, if_pos (by simp [hgrant, howner])]
  have hstate : promptState (mergePeon grant inf timestamp provider historySummary .nonPrompt m) =
      _ := promptState_nonPrompt hgrant
  simp only [hreconcile, promptState, Prod.mk.injEq] at hstate
  obtain ⟨hstatus, -, hneeds, hquestion, hoptions, -⟩ := hstate
  refine ⟨hneeds, hquestion, hoptions, ?_⟩
  rw [hstatus, ne_eq, statusAfter_waiting]
  intro h
  have hwaiting := h.1
  simp only [clearedPrompt] at hwaiting
  split at hwaiting
  · exact absurd hwaiting (by simp)
  · next h => exact h (by simp [hwaiting])

theorem promptless_of_taken (hgrant : grant.attention = true)
    (howner : m.attentionSource = "agent" ∨ m.attentionSource = "codex_hook") :
    Promptless (mergePeon grant inf timestamp provider historySummary .nonPrompt m) ↔
      ¬Prompted m inf := by
  have hreconcile : reconcilePeonPrompt grant .nonPrompt timestamp m = m := by
    rw [reconcilePeonPrompt, if_neg]
    obtain h | h := howner <;> simp [h]
  have hstate : promptState (mergePeon grant inf timestamp provider historySummary .nonPrompt m) =
      _ := promptState_nonPrompt hgrant
  simp only [hreconcile, promptState, Prod.mk.injEq] at hstate
  obtain ⟨hstatus, -, hneeds, hquestion, hoptions, -⟩ := hstate
  have hwaiting : statusAfter .nonPrompt inf m.observedStatus = some "waiting_for_input" ↔ _ :=
    statusAfter_waiting m.observedStatus
  constructor
  · intro h hprompted
    obtain hsome | hsome | hsome | hsome := hprompted
    · exact hsome (hneeds ▸ h.needsUserInput)
    · exact hsome (hquestion ▸ h.detectedQuestion)
    · exact hsome (hoptions ▸ h.suggestedOptions)
    · exact h.observedStatus (hstatus.trans (hwaiting.mpr hsome))
  · intro h
    simp only [Prompted, not_or, not_not] at h
    obtain ⟨hnone, hnone', hnone'', hstatus'⟩ := h
    refine ⟨hneeds.trans hnone, hquestion.trans hnone', hoptions.trans hnone'', fun heq => ?_⟩
    obtain ⟨hstill, hinf⟩ := hwaiting.mp (hstatus.symm.trans heq)
    exact hstatus' ⟨hstill, hinf⟩

theorem reconcile_promptless (h : Promptless m)
    (hsettled : Settled grant .nonPrompt inf provider historySummary m)
    (hgrant : grant.attention = true) :
    reconcilePeonPrompt grant .nonPrompt timestamp m = m := by
  have hobserve := hsettled.observe
  rw [peonObserve_granted hgrant (by decide)] at hobserve
  have hstatus : statusAfter .nonPrompt inf m.observedStatus = m.observedStatus :=
    congrArg SessionMetadata.observedStatus hobserve
  have hattention : (if m.lifecycle == "alive" then canonicalAttention m.observedStatus
      else m.attention) = m.attention := by
    have heq := congrArg SessionMetadata.attention hobserve
    rwa [hstatus] at heq
  have hcleared : clearedPrompt m = m := by
    have hkept : (if m.observedStatus == some "waiting_for_input" then none else m.observedStatus) =
        m.observedStatus := if_neg (by simpa using h.observedStatus)
    rw [clearedPrompt, hkept, hattention]
    have hsame {needs : Option Bool} {question : Option String} {options : Option (List String)}
        (hneeds : m.needsUserInput = needs) (hquestion : m.detectedQuestion = question)
        (hoptions : m.suggestedOptions = options) :
        { m with
          needsUserInput := needs, detectedQuestion := question, suggestedOptions := options } =
            m := by
      rw [← hneeds, ← hquestion, ← hoptions]
    exact hsame h.needsUserInput h.detectedQuestion h.suggestedOptions
  rw [reconcilePeonPrompt]
  split
  · rw [hcleared, if_neg (by simp)]
  · rfl

end prompt

/-! ## Twice -/

section twice
variable (env : Env) (m : SessionMetadata) (inf : PeonInference)
  (provider : Option ProviderObservation) (historySummary : Option String) (policy : PeonPolicy)

/-- The record is left as it was. -/
def skipped : Bool :=
  (resumesTerminal m inf policy && inf.nextAction.isNone && inf.blockerDescription.isNone
      && inf.failedCommand.isNone && inf.failedTest.isNone && inf.capacityHints.isNone)
    || (!(peonGrant env m inf historySummary policy).work
      && !(peonGrant env m inf historySummary policy).attention
      && !(peonGrant env m inf historySummary policy).summary)

theorem applyPeon_fst (timestamp : String) :
    (applyPeon env m inf timestamp provider historySummary policy).1 =
      if skipped env m inf historySummary policy then m
      else merged env m inf timestamp provider historySummary policy := by
  rw [applyPeon, skipped]
  split
  · next h => rw [h]; rfl
  · next h =>
    rw [Bool.eq_false_of_not_eq_true h, Bool.false_or]
    split <;> rfl

theorem attention_of_skipped (h : skipped env m inf historySummary policy = true) :
    (peonGrant env m inf historySummary policy).attention = false := by
  rw [skipped, Bool.or_eq_true] at h
  obtain h | h := h
  · simp only [Bool.and_eq_true] at h
    simp [peonGrant, h.1.1.1.1.1]
  · simp only [Bool.and_eq_true, Bool.not_eq_true'] at h
    exact h.1.2

theorem Repeats.refl : Repeats m m := rfl

variable (t₁ t₂ : String)

theorem not_repeats_of_released (h : Released env m inf historySummary policy) {grant : PeonGrant}
    (hgrant : grant.attention = true) :
    ¬Repeats (merged env m inf t₁ provider historySummary policy)
      (mergePeon grant inf t₂ provider historySummary policy
        (merged env m inf t₁ provider historySummary policy)) := by
  intro hrepeats
  have hfields : (merged env m inf t₁ provider historySummary policy).attentionFields =
      m.attentionFields := mergePeon_attention inf t₁ provider historySummary policy m h.withheld
  have hclaimed : Claimed grant inf provider (mergePeon grant inf t₂ provider historySummary policy
      (merged env m inf t₁ provider historySummary policy)) := claimed_merge t₂ _
  obtain ⟨hfrom, -, horigin⟩ := hclaimed.attention hgrant
  have hfrom' : m.provenance.attentionSource = some "peon" := by
    rw [hrepeats] at hfrom
    exact (congrArg AttentionFields.source hfields).symm.trans hfrom
  have horigin' : m.provenance.attentionOrigin = some "peon" := by
    rw [hrepeats] at horigin
    exact (congrArg AttentionFields.origin hfields).symm.trans horigin
  -- attention that Peon owned was not withheld
  have hgranted := h.granted
  have hwithheld := h.withheld
  have hprotected : protectedHookMatches m policy = false := by
    cases policy <;> simp [protectedHookMatches, SessionMetadata.attentionOrigin, horigin']
  have hsource : m.attentionSource = "peon" := by
    rw [SessionMetadata.attentionSource, hfrom']
    rfl
  simp only [peonGrant, Bool.and_eq_true] at hgranted
  have hgrant' : (peonGrant env m inf historySummary policy).attention = true := by
    have hresumes : (!resumesTerminal m inf policy) = true := hgranted.2
    simp only [peonGrant, Bool.and_eq_true, hprotected, hsource, canOverwrite_own]
    exact ⟨⟨⟨hgranted.1.1.1, by decide⟩, by decide⟩, hresumes⟩
  rw [hwithheld] at hgrant'
  exact absurd hgrant' Bool.false_ne_true

/-- A second merge under the grant of the first one repeats it but for a prompt that is taken
back. -/
theorem merged_repeats : Repeats (merged env m inf t₁ provider historySummary policy)
        (mergePeon (peonGrant env m inf historySummary policy) inf t₂ provider historySummary policy
          (merged env m inf t₁ provider historySummary policy)) ↔
      ¬TakenOver env m inf historySummary policy := by
  have hsettled : Settled (peonGrant env m inf historySummary policy) policy inf provider
      historySummary (merged env m inf t₁ provider historySummary policy) := mergePeon_settles t₁ m
  by_cases hprompt : policy = .nonPrompt ∧
      (peonGrant env m inf historySummary policy).attention = true
  · obtain ⟨rfl, hgrant⟩ := hprompt
    have howner : (merged env m inf t₁ provider historySummary .nonPrompt).attentionSource =
        "peon" := by
      rw [SessionMetadata.attentionSource, (hsettled.claimed.attention hgrant).1]
      rfl
    have hsecond : Promptless (mergePeon (peonGrant env m inf historySummary .nonPrompt) inf t₂
        provider historySummary .nonPrompt
        (merged env m inf t₁ provider historySummary .nonPrompt)) :=
      promptless_of_owner hgrant (by rw [howner]; decide)
    have hfirst : Promptless (merged env m inf t₁ provider historySummary .nonPrompt) ↔
        ¬TakenOver env m inf historySummary .nonPrompt := by
      by_cases hother : m.attentionSource = "agent" ∨ m.attentionSource = "codex_hook"
      · rw [merged, promptless_of_taken hgrant hother]
        exact ⟨fun h htaken => h htaken.prompted,
          fun h hprompted => h ⟨rfl, hgrant, hother, hprompted⟩⟩
      · refine ⟨fun _ htaken => hother htaken.owner, fun _ => ?_⟩
        refine promptless_of_owner hgrant ⟨fun huser => ?_, not_or.mp hother⟩
        rw [peonGrant_attention_user env m inf historySummary .nonPrompt huser] at hgrant
        exact absurd hgrant Bool.false_ne_true
    rw [← hfirst]
    constructor
    · intro hrepeats
      rw [hrepeats] at hsecond
      exact ⟨hsecond.needsUserInput, hsecond.detectedQuestion, hsecond.suggestedOptions,
        hsecond.observedStatus⟩
    · intro hpromptless
      exact mergePeon_settled hsettled (reconcile_promptless hpromptless hsettled hgrant)
  · have hreconcile : reconcilePeonPrompt (peonGrant env m inf historySummary policy) policy t₂
        (merged env m inf t₁ provider historySummary policy) = _ := if_neg (by
      intro h
      simp only [Bool.and_eq_true, beq_iff_eq] at h
      exact hprompt ⟨h.1.2, h.1.1⟩)
    exact ⟨fun _ htaken => hprompt ⟨htaken.nonPrompt, htaken.granted⟩,
      fun _ => mergePeon_settled hsettled hreconcile⟩

/-- Applied again, an inference moves the times of the last inference and of the summary's
observation and nothing else, if and only if its first application took no prompt over and
released no attention. -/
theorem applyPeon_repeats (t₁ t₂ : String) :
    Repeats (applyPeon env m inf t₁ provider historySummary policy).1
        (applyPeon env (applyPeon env m inf t₁ provider historySummary policy).1 inf t₂ provider
          historySummary policy).1 ↔
      ¬TakenOver env m inf historySummary policy ∧ ¬Released env m inf historySummary policy := by
  rw [applyPeon_fst, applyPeon_fst]
  by_cases hskipped : skipped env m inf historySummary policy = true
  · rw [if_pos hskipped, if_pos hskipped]
    have hattention := attention_of_skipped env m inf historySummary policy hskipped
    refine ⟨fun _ => ⟨fun htaken => ?_, fun hreleased => ?_⟩, fun _ => Repeats.refl m⟩
    · rw [htaken.granted] at hattention
      exact absurd hattention (by decide)
    · rw [skipped, Bool.or_eq_true] at hskipped
      obtain h | h := hskipped
      · -- what resumes a terminal status does so whatever the work's source is
        simp only [Bool.and_eq_true] at h
        have hgranted := hreleased.granted
        have hresumes : resumesTerminal { m with
          metadataSource := "peon", metadataConfidence := inf.confidence } inf policy = true :=
          h.1.1.1.1.1
        simp [peonGrant, hresumes] at hgranted
      · rw [hreleased.work] at h
        exact absurd h (by simp)
  · rw [if_neg hskipped]
    by_cases hattention : (peonGrant env (merged env m inf t₁ provider historySummary policy) inf
        historySummary policy).attention = (peonGrant env m inf historySummary policy).attention
    · have hgrant : peonGrant env (merged env m inf t₁ provider historySummary policy) inf
          historySummary policy = peonGrant env m inf historySummary policy := by
        exact PeonGrant.ext_of hattention (grant_work env m inf t₁ provider historySummary policy)
          (grant_summary env m inf t₁ provider historySummary policy)
      have hreleased : ¬Released env m inf historySummary policy := by
        intro h
        have hgranted := (grant_attention_withheld env m inf t₁ provider historySummary policy
          h.withheld).mpr h
        rw [hattention, h.withheld] at hgranted
        exact absurd hgranted Bool.false_ne_true
      by_cases hagain : skipped env (merged env m inf t₁ provider historySummary policy) inf
          historySummary policy = true
      · rw [if_pos hagain]
        refine ⟨fun _ => ⟨fun htaken => ?_, hreleased⟩, fun _ => Repeats.refl _⟩
        have hwithheld := attention_of_skipped env _ inf historySummary policy hagain
        rw [hattention, htaken.granted] at hwithheld
        exact absurd hwithheld (by decide)
      · rw [if_neg hagain, and_iff_left hreleased,
          ← merged_repeats env m inf provider historySummary policy t₁ t₂]
        unfold merged
        unfold merged at hgrant
        rw [hgrant]
    · -- the two grants differ where the attention is released
      have hwithheld : (peonGrant env m inf historySummary policy).attention = false := by
        refine Bool.eq_false_of_not_eq_true (fun hgrant => hattention ?_)
        rw [grant_attention_granted env m inf t₁ provider historySummary policy hgrant, hgrant]
      have hgranted : (peonGrant env (merged env m inf t₁ provider historySummary policy) inf
          historySummary policy).attention = true := by
        rw [hwithheld] at hattention
        exact Bool.eq_true_of_not_eq_false hattention
      have hreleased :=
        (grant_attention_withheld env m inf t₁ provider historySummary policy hwithheld).mp hgranted
      have hagain : ¬skipped env (merged env m inf t₁ provider historySummary policy) inf
          historySummary policy = true := by
        intro h
        rw [attention_of_skipped env _ inf historySummary policy h] at hgranted
        exact absurd hgranted Bool.false_ne_true
      rw [if_neg hagain]
      exact ⟨fun hrepeats => absurd hrepeats (not_repeats_of_released env m inf provider
        historySummary policy t₁ t₂ hreleased hgranted), fun h => absurd hreleased h.2⟩

end twice

/-- A hook's question, older than the time that Peon leaves it. -/
def askedByHook : SessionMetadata :=
  { provenance :=
      { attentionSource := some "agent", attentionConfidence := some F64.one,
        attentionOrigin := some "harness_hook", attentionUpdatedAt := some "2026-01-01T00:00:00Z" }
    id := "s1", label := "task", workspace := "w", task := "t", cwd := "/w", status := "running"
    observedStatus := some "waiting_for_input", attention := some "needs_you"
    needsUserInput := some true, detectedQuestion := some "Continue?"
    createdAt := "2026-01-01T00:00:00Z", lastActivity := "2026-01-01T00:00:00Z"
    metadataSource := "peon", metadataConfidence := F64.one }

/-- The second of two inferences that the session works takes the question back, and counts
as activity. -/
theorem applyPeon_takes_back :
    let env : Env := ⟨fun _ => some 60, fun _ => some 60, fun _ => true⟩
    let inf : PeonInference := { observedStatus := some "working", confidence := F64.one }
    let first := (applyPeon env askedByHook inf "2026-01-01T00:01:00Z" none none .nonPrompt).1
    let second := (applyPeon env first inf "2026-01-01T00:02:00Z" none none .nonPrompt).1
    ¬Repeats first second ∧ first.lastActivity = "2026-01-01T00:00:00Z" ∧
      second.lastActivity = "2026-01-01T00:02:00Z" := by
  intro env inf first second
  have hfirst : first.lastActivity = "2026-01-01T00:00:00Z" := by decide
  have hsecond : second.lastActivity = "2026-01-01T00:02:00Z" := by decide
  refine ⟨fun hrepeats => ?_, hfirst, hsecond⟩
  have hsame := hrepeats.lastActivity
  rw [hfirst, hsecond] at hsame
  exact absurd hsame (by decide)

end Orkworksd.Metadata
