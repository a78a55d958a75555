import Orkworksd.Metadata.Session

/- `normalize_session_metadata` and `reconcile_orphaned_session` of `metadata.rs`, with
   `recorded_state` of `session_store.rs`.

   Normalisation is a sequence of rules, each a definition here, that read what the
   rules before them wrote. The rule for terminal statuses comes last and moves the
   phase to `ended`, after the lifecycle was derived from the phase the record had
   before: a record that only this rule ends keeps a lifecycle that is not `dead`. The
   rule for an ending without a pending status does the same.

   1. `Normal` lists what every rule leaves alone, and such a record is a fixed point
      (`normalize_of_normal`).
   2. The rules after the lifecycle was derived keep it, and what they make of the status
      and the phase is one of four cases (`settle_failed`, `settle_pending`,
      `settle_terminal`, `settle_live`).
   3. `normalisation_coherent_iff` says for which records normalisation is idempotent and
      coherent. -/
namespace Orkworksd.Metadata

def defaultLifecyclePhaseForStatus (status : String) : String :=
  if status == "creating" then "creating"
  else if status == "running" then "active"
  else if isTerminal status then "ended"
  else "active"

def snapshotFromLegacyObservedStatus (m : SessionMetadata) :
    Option ObservedStatusSnapshotMetadata :=
  m.observedStatus.map (fun status =>
    { attentionOrigin := some m.attentionOrigin
      value := some status
      source := if m.attentionSource.isEmpty then "recovery" else m.attentionSource
      confidence := some m.attentionConfidence
      observedAt := some m.lastActivity })

def canonicalNullSnapshot (source : String) (observedAt : Option String) :
    ObservedStatusSnapshotMetadata :=
  { attentionOrigin := none, value := none, source, confidence := none, observedAt }

/-! The rules of `normalize_session_metadata`, in its order. -/

def normalizePhase (m : SessionMetadata) : SessionMetadata :=
  { m with workPhase := normalizeWorkPhase m.workPhase }

def fillLifecyclePhase (m : SessionMetadata) : SessionMetadata :=
  if m.lifecyclePhase.isEmpty then
    { m with lifecyclePhase := defaultLifecyclePhaseForStatus m.status }
  else m

/-- The lifecycle an `alive` record takes from its phase. -/
def lifecycleForPhase (phase : String) : String :=
  if phase == "creating" then "creating"
  else if phase == "ending" then "stopping"
  else if phase == "ended" then "dead"
  else "alive"

def deriveLifecycle (m : SessionMetadata) : SessionMetadata :=
  { m with
    lifecycle := if m.lifecycle == "alive" then lifecycleForPhase m.lifecyclePhase else m.lifecycle }

def deriveAttention (m : SessionMetadata) : SessionMetadata :=
  { m with
    attention :=
      if m.attention.isNone && m.lifecycle == "alive" then canonicalAttention m.observedStatus
      else m.attention }

def keepEndingRunning (m : SessionMetadata) : SessionMetadata :=
  { m with
    status := if m.lifecyclePhase == "ending" && m.status != "running" then "running" else m.status }

def inferTerminalOutcome (m : SessionMetadata) : SessionMetadata :=
  { m with
    terminalOutcome :=
      if isTerminal m.status then m.terminalOutcome.or (some m.status) else m.terminalOutcome }

def disconnectTerminal (m : SessionMetadata) : SessionMetadata :=
  { m with
    connectivity :=
      if isTerminal m.status && m.connectivity == "online" then "offline" else m.connectivity }

def dropPendingOutsideEnding (m : SessionMetadata) : SessionMetadata :=
  if m.lifecyclePhase != "ending" then
    { m with pendingTerminalStatus := none, endingObservedStatusSnapshot := none }
  else m

def failEndingWithoutPending (m : SessionMetadata) : SessionMetadata :=
  if m.lifecyclePhase == "ending" && m.pendingTerminalStatus.isNone then
    { m with
      lifecyclePhase := "ended"
      status := "error"
      terminalOutcome := some "error"
      connectivity := "offline" }
  else m

def freezeEndedSnapshot (m : SessionMetadata) : SessionMetadata :=
  { m with
    finalObservedStatusSnapshot :=
      if m.lifecyclePhase == "ended" then
        m.finalObservedStatusSnapshot.or (some
          ((m.endingObservedStatusSnapshot.or (snapshotFromLegacyObservedStatus m)).getD
            (canonicalNullSnapshot "recovery" none)))
      else m.finalObservedStatusSnapshot }

def clearObservedOutsideActive (m : SessionMetadata) : SessionMetadata :=
  { m with
    observedStatus :=
      if ["creating", "ending", "ended"].contains m.lifecyclePhase then none else m.observedStatus }

def clearAttentionUnlessAlive (m : SessionMetadata) : SessionMetadata :=
  { m with attention := if m.lifecycle != "alive" then none else m.attention }

def endTerminal (m : SessionMetadata) : SessionMetadata :=
  if isTerminal m.status then
    { m with
      lifecyclePhase := "ended"
      finalObservedStatusSnapshot := m.finalObservedStatusSnapshot.or (some
        ((snapshotFromLegacyObservedStatus m).getD (canonicalNullSnapshot "recovery" none)))
      pendingTerminalStatus := none
      endingObservedStatusSnapshot := none
      observedStatus := none }
  else m

def normalizeSessionMetadata (m : SessionMetadata) : SessionMetadata :=
  let m := normalizePhase m
  let m := fillLifecyclePhase m
  let m := deriveLifecycle m
  let m := deriveAttention m
  let m := keepEndingRunning m
  let m := inferTerminalOutcome m
  let m := disconnectTerminal m
  let m := dropPendingOutsideEnding m
  let m := failEndingWithoutPending m
  let m := freezeEndedSnapshot m
  let m := clearObservedOutsideActive m
  let m := clearAttentionUnlessAlive m
  endTerminal m

def reconcileOrphanedSession (m : SessionMetadata) (now : String) : SessionMetadata :=
  let finalStatus :=
    if m.lifecyclePhase == "ending" then m.pendingTerminalStatus.getD "error" else "ended"
  { m with
    finalObservedStatusSnapshot := m.finalObservedStatusSnapshot.or (some
      ((m.endingObservedStatusSnapshot.or (snapshotFromLegacyObservedStatus m)).getD
        (canonicalNullSnapshot "recovery" (some now))))
    lifecyclePhase := "ended"
    lifecycle := "dead"
    attention := none
    terminalOutcome := some finalStatus
    status := finalStatus
    connectivity := "offline"
    pendingTerminalStatus := none
    endingObservedStatusSnapshot := none
    observedStatus := none
    lastActivity := now }

inductive RecordedState where
  | closed | active | unknown
  deriving DecidableEq, Repr

/-- `recorded_state`: only a `closed` record may be archived or deleted. -/
def recordedState (m : SessionMetadata) : RecordedState :=
  if isTerminal m.status && m.lifecycle == "dead" && m.lifecyclePhase == "ended" then .closed
  else if m.lifecycle == "alive"
      || (m.lifecycle == "creating" && m.lifecyclePhase == "creating")
      || (m.lifecycle == "stopping" && m.lifecyclePhase == "ending") then .active
  else .unknown

/-! What the rules leave alone. -/

def SameCreation (m m' : SessionMetadata) : Prop := m'.id = m.id ∧ m'.createdAt = m.createdAt

theorem SameCreation.ite {c : Prop} [Decidable c] {m m' : SessionMetadata}
    (h : SameCreation m m') : SameCreation m (if c then m' else m) := by
  split
  · exact h
  · exact ⟨rfl, rfl⟩

theorem SameCreation.andThen {m m' : SessionMetadata}
    (h : SameCreation m m') (rule : SessionMetadata → SessionMetadata)
    (hrule : ∀ m, SameCreation m (rule m)) : SameCreation m (rule m') :=
  ⟨(hrule m').1.trans h.1, (hrule m').2.trans h.2⟩

theorem normalize_identity (m : SessionMetadata) : SameCreation m (normalizeSessionMetadata m) := by
  have h : SameCreation m (normalizePhase m) := ⟨rfl, rfl⟩
  have h := h.andThen fillLifecyclePhase (fun _ => SameCreation.ite ⟨rfl, rfl⟩)
  have h := h.andThen deriveLifecycle (fun _ => ⟨rfl, rfl⟩)
  have h := h.andThen deriveAttention (fun _ => ⟨rfl, rfl⟩)
  have h := h.andThen keepEndingRunning (fun _ => ⟨rfl, rfl⟩)
  have h := h.andThen inferTerminalOutcome (fun _ => ⟨rfl, rfl⟩)
  have h := h.andThen disconnectTerminal (fun _ => ⟨rfl, rfl⟩)
  have h := h.andThen dropPendingOutsideEnding (fun _ => SameCreation.ite ⟨rfl, rfl⟩)
  have h := h.andThen failEndingWithoutPending (fun _ => SameCreation.ite ⟨rfl, rfl⟩)
  have h := h.andThen freezeEndedSnapshot (fun _ => ⟨rfl, rfl⟩)
  have h := h.andThen clearObservedOutsideActive (fun _ => ⟨rfl, rfl⟩)
  have h := h.andThen clearAttentionUnlessAlive (fun _ => ⟨rfl, rfl⟩)
  exact h.andThen endTerminal (fun _ => SameCreation.ite ⟨rfl, rfl⟩)

/-- A record on which every rule is the identity. -/
structure Normal (m : SessionMetadata) : Prop where
  work : normalizeWorkPhase m.workPhase = m.workPhase
  phase : m.lifecyclePhase ≠ ""
  alive : m.lifecycle = "alive" → lifecycleForPhase m.lifecyclePhase = "alive"
  attention : m.lifecycle = "alive" → m.attention = none → canonicalAttention m.observedStatus = none
  dead : m.lifecycle ≠ "alive" → m.attention = none
  ending : m.lifecyclePhase = "ending" → m.status = "running" ∧ m.pendingTerminalStatus ≠ none
  outside : m.lifecyclePhase ≠ "ending" →
    m.pendingTerminalStatus = none ∧ m.endingObservedStatusSnapshot = none
  ended : m.lifecyclePhase = "ended" → m.finalObservedStatusSnapshot ≠ none
  quiet : m.lifecyclePhase ∈ ["creating", "ending", "ended"] → m.observedStatus = none
  terminal : isTerminal m.status = true →
    m.lifecyclePhase = "ended" ∧ m.terminalOutcome ≠ none ∧ m.connectivity ≠ "online"

section Fixed

variable {m : SessionMetadata} (h : Normal m)
include h

theorem normalizePhase_normal : normalizePhase m = m := by
  rw [normalizePhase, h.work]

theorem fillLifecyclePhase_normal : fillLifecyclePhase m = m := by
  have empty : m.lifecyclePhase.isEmpty = false := by simpa using h.phase
  simp [fillLifecyclePhase, empty]

theorem deriveLifecycle_normal : deriveLifecycle m = m := by
  unfold deriveLifecycle
  split
  · next alive =>
    have alive := eq_of_beq alive
    rw [h.alive alive, ← alive]
  · rfl

theorem deriveAttention_normal : deriveAttention m = m := by
  unfold deriveAttention
  split
  · next guard =>
    rw [Bool.and_eq_true, Option.isNone_iff_eq_none, beq_iff_eq] at guard
    rw [h.attention guard.2 guard.1, ← guard.1]
  · rfl

theorem keepEndingRunning_normal : keepEndingRunning m = m := by
  rw [keepEndingRunning, if_neg]
  rw [Bool.and_eq_true, beq_iff_eq, bne_iff_ne]
  exact fun guard => guard.2 (h.ending guard.1).1

theorem inferTerminalOutcome_normal : inferTerminalOutcome m = m := by
  unfold inferTerminalOutcome
  split
  · next terminal =>
    obtain ⟨outcome, recorded⟩ := Option.ne_none_iff_exists'.mp (h.terminal terminal).2.1
    rw [recorded, Option.some_or, ← recorded]
  · rfl

theorem disconnectTerminal_normal : disconnectTerminal m = m := by
  rw [disconnectTerminal, if_neg]
  rw [Bool.and_eq_true, beq_iff_eq]
  exact fun guard => (h.terminal guard.1).2.2 guard.2

theorem dropPendingOutsideEnding_normal : dropPendingOutsideEnding m = m := by
  unfold dropPendingOutsideEnding
  split
  · next guard =>
    obtain ⟨pending, snapshot⟩ := h.outside (bne_iff_ne.mp guard)
    rw [← snapshot, ← pending]
  · rfl

theorem failEndingWithoutPending_normal : failEndingWithoutPending m = m := by
  refine if_neg ?_
  rw [Bool.and_eq_true, beq_iff_eq, Option.isNone_iff_eq_none]
  exact fun guard => (h.ending guard.1).2 guard.2

theorem freezeEndedSnapshot_normal : freezeEndedSnapshot m = m := by
  unfold freezeEndedSnapshot
  split
  · next ended =>
    obtain ⟨snapshot, frozen⟩ := Option.ne_none_iff_exists'.mp (h.ended (eq_of_beq ended))
    rw [frozen, Option.some_or, ← frozen]
  · rfl

theorem clearObservedOutsideActive_normal : clearObservedOutsideActive m = m := by
  unfold clearObservedOutsideActive
  split
  · next guard => rw [← h.quiet (List.contains_iff_mem.mp guard)]
  · rfl

theorem clearAttentionUnlessAlive_normal : clearAttentionUnlessAlive m = m := by
  unfold clearAttentionUnlessAlive
  split
  · next guard => rw [← h.dead (bne_iff_ne.mp guard)]
  · rfl

theorem endTerminal_normal : endTerminal m = m := by
  unfold endTerminal
  split
  · next guard =>
    obtain ⟨phase, -, -⟩ := h.terminal guard
    have notEnding : m.lifecyclePhase ≠ "ending" := by simp [phase]
    obtain ⟨pending, snapshot⟩ := h.outside notEnding
    have quiet : m.observedStatus = none := h.quiet (by simp [phase])
    obtain ⟨final, frozen⟩ := Option.ne_none_iff_exists'.mp (h.ended phase)
    have same : ∀ p f q e o, p = m.lifecyclePhase → f = m.finalObservedStatusSnapshot →
        q = m.pendingTerminalStatus → e = m.endingObservedStatusSnapshot → o = m.observedStatus →
        { m with
          lifecyclePhase := p, finalObservedStatusSnapshot := f, pendingTerminalStatus := q
          endingObservedStatusSnapshot := e, observedStatus := o } = m := by
      rintro _ _ _ _ _ rfl rfl rfl rfl rfl
      rfl
    exact same _ _ _ _ _ phase.symm (by rw [frozen, Option.some_or]) pending.symm snapshot.symm
      quiet.symm
  · rfl

theorem normalize_of_normal : normalizeSessionMetadata m = m := by
  rw [normalizeSessionMetadata, normalizePhase_normal h, fillLifecyclePhase_normal h, deriveLifecycle_normal h, deriveAttention_normal h,
    keepEndingRunning_normal h, inferTerminalOutcome_normal h, disconnectTerminal_normal h,
    dropPendingOutsideEnding_normal h, failEndingWithoutPending_normal h,
    freezeEndedSnapshot_normal h, clearObservedOutsideActive_normal h,
    clearAttentionUnlessAlive_normal h, endTerminal_normal h]

end Fixed

/-! What the rules make of a record whose phase is filled in and whose lifecycle is derived. -/

/-- The rules from attention on. -/
def settle (m : SessionMetadata) : SessionMetadata :=
  endTerminal (clearAttentionUnlessAlive (clearObservedOutsideActive (freezeEndedSnapshot
    (failEndingWithoutPending (dropPendingOutsideEnding (disconnectTerminal (inferTerminalOutcome
      (keepEndingRunning (deriveAttention m)))))))))

section Settle

variable {m : SessionMetadata}

attribute [local simp] settle deriveAttention keepEndingRunning inferTerminalOutcome
  disconnectTerminal dropPendingOutsideEnding failEndingWithoutPending freezeEndedSnapshot
  clearObservedOutsideActive clearAttentionUnlessAlive endTerminal

section
variable (phase : m.lifecyclePhase = "ending")
include phase

theorem settle_failed
    (pending : m.pendingTerminalStatus = none) :
    (settle m).status = "error" ∧ (settle m).lifecyclePhase = "ended"
      ∧ (settle m).lifecycle = m.lifecycle := by
  simp [phase, pending, isTerminal]

theorem settle_failed_normal
    (pending : m.pendingTerminalStatus = none) (lifecycle : m.lifecycle ≠ "alive")
    (work : normalizeWorkPhase m.workPhase = m.workPhase) : Normal (settle m) := by
  constructor <;> simp [phase, pending, isTerminal, work, lifecycle]

theorem settle_pending {status : String}
    (pending : m.pendingTerminalStatus = some status) :
    (settle m).status = "running" ∧ (settle m).lifecyclePhase = "ending"
      ∧ (settle m).lifecycle = m.lifecycle ∧ (settle m).pendingTerminalStatus = some status := by
  by_cases running : m.status = "running" <;>
  simp [phase, pending, isTerminal, running]

theorem settle_pending_normal {status : String}
    (pending : m.pendingTerminalStatus = some status) (lifecycle : m.lifecycle ≠ "alive")
    (work : normalizeWorkPhase m.workPhase = m.workPhase) : Normal (settle m) := by
  by_cases running : m.status = "running" <;> constructor <;>
  simp [phase, pending, isTerminal, work, lifecycle, running]

end

section
variable (phase : m.lifecyclePhase ≠ "ending")
include phase

theorem settle_terminal
    (terminal : isTerminal m.status = true) :
    (settle m).status = m.status ∧ (settle m).lifecyclePhase = "ended"
      ∧ (settle m).lifecycle = m.lifecycle := by
  simp [phase, terminal]

theorem settle_terminal_normal
    (terminal : isTerminal m.status = true) (lifecycle : m.lifecycle ≠ "alive")
    (work : normalizeWorkPhase m.workPhase = m.workPhase) : Normal (settle m) := by
  have offline : (if m.connectivity = "online" then "offline" else m.connectivity) ≠ "online" := by
    split
    · simp
    · assumption
  constructor <;> simp [phase, terminal, work, lifecycle, offline]

theorem settle_live (live : isTerminal m.status = false) :
    (settle m).status = m.status ∧ (settle m).lifecyclePhase = m.lifecyclePhase
      ∧ (settle m).lifecycle = m.lifecycle := by
  simp [phase, live]

theorem settle_live_normal
    (live : isTerminal m.status = false) (filled : m.lifecyclePhase ≠ "")
    (alive : m.lifecycle = "alive" → lifecycleForPhase m.lifecyclePhase = "alive")
    (work : normalizeWorkPhase m.workPhase = m.workPhase) : Normal (settle m) := by
  have inferred : m.lifecycle = "alive" →
      (if m.attention = none ∧ m.lifecycle = "alive" then canonicalAttention m.observedStatus
        else m.attention) = none → canonicalAttention m.observedStatus = none := by
    intro alive absent
    split at absent
    · exact absent
    · next guard => exact absurd ⟨absent, alive⟩ guard
  constructor
  case alive => simpa [phase, live] using alive
  case attention =>
    intro lifecycle absent
    simp [phase, live] at lifecycle absent ⊢
    split
    · rfl
    · exact inferred lifecycle (absent lifecycle)
  case dead =>
    intro lifecycle
    simp only [settle_live phase live] at lifecycle
    simp [phase, live, lifecycle]
  case ended =>
    intro ended
    simp only [settle_live phase live] at ended
    simp [live, ended]
  case quiet =>
    intro named
    simp only [settle_live phase live, List.mem_cons, List.not_mem_nil, phase, false_or,
      or_false] at named
    simp [phase, live, named]
  all_goals simp [phase, live, work, filled]

end

end Settle

/-- The phase that the lifecycle is derived from. -/
def openingPhase (m : SessionMetadata) : String :=
  if m.lifecyclePhase.isEmpty then defaultLifecyclePhaseForStatus m.status else m.lifecyclePhase

/-- The record that the rules from attention on start with. -/
def opened (m : SessionMetadata) : SessionMetadata :=
  deriveLifecycle (fillLifecyclePhase (normalizePhase m))

theorem normalize_eq (m : SessionMetadata) : normalizeSessionMetadata m = settle (opened m) := rfl

section Opened

variable (m : SessionMetadata)

theorem opened_phase : (opened m).lifecyclePhase = openingPhase m := by
  by_cases empty : m.lifecyclePhase.isEmpty <;>
    simp [opened, deriveLifecycle, fillLifecyclePhase, normalizePhase, openingPhase, empty]

theorem opened_status : (opened m).status = m.status := by
  by_cases empty : m.lifecyclePhase.isEmpty <;>
    simp [opened, deriveLifecycle, fillLifecyclePhase, normalizePhase, empty]

theorem opened_pending : (opened m).pendingTerminalStatus = m.pendingTerminalStatus := by
  by_cases empty : m.lifecyclePhase.isEmpty <;>
    simp [opened, deriveLifecycle, fillLifecyclePhase, normalizePhase, empty]

theorem opened_lifecycle : (opened m).lifecycle =
    if m.lifecycle = "alive" then lifecycleForPhase (openingPhase m) else m.lifecycle := by
  by_cases empty : m.lifecyclePhase.isEmpty <;>
    simp [opened, deriveLifecycle, fillLifecyclePhase, normalizePhase, openingPhase, empty]

theorem normalizeWorkPhase_fixed (raw : String) :
    normalizeWorkPhase (normalizeWorkPhase raw) = normalizeWorkPhase raw := by
  by_cases known : workPhases.contains raw
  · have kept : normalizeWorkPhase raw = raw := if_pos known
    rw [kept, kept]
  · have replaced : normalizeWorkPhase raw = "unknown" := if_neg known
    rw [replaced]
    decide

theorem opened_work : normalizeWorkPhase (opened m).workPhase = (opened m).workPhase := by
  by_cases empty : m.lifecyclePhase.isEmpty <;>
    simp [opened, deriveLifecycle, fillLifecyclePhase, normalizePhase, empty,
      normalizeWorkPhase_fixed]

theorem openingPhase_ne_empty : openingPhase m ≠ "" := by
  unfold openingPhase
  split
  · unfold defaultLifecyclePhaseForStatus
    split_ifs <;> simp
  · next filled => simpa using filled

end Opened

/-! Idempotence and coherence. -/

/-- What a reader of a record relies on: a second reading changes nothing, an ended record
is closed, and the recovery of an orphan gives a record that is read back as it is. -/
def Coherent (m : SessionMetadata) : Prop :=
  normalizeSessionMetadata (normalizeSessionMetadata m) = normalizeSessionMetadata m
  ∧ (isTerminal (normalizeSessionMetadata m).status = true
        ∨ (normalizeSessionMetadata m).lifecyclePhase = "ended" →
      (normalizeSessionMetadata m).lifecycle = "dead"
        ∧ (normalizeSessionMetadata m).attention = none
        ∧ (normalizeSessionMetadata m).observedStatus = none
        ∧ recordedState (normalizeSessionMetadata m) = .closed)
  ∧ ∀ now, normalizeSessionMetadata (reconcileOrphanedSession (normalizeSessionMetadata m) now)
        = reconcileOrphanedSession (normalizeSessionMetadata m) now
      ∧ ((normalizeSessionMetadata m).lifecyclePhase = "ending" →
        (normalizeSessionMetadata m).pendingTerminalStatus
          = some (reconcileOrphanedSession (normalizeSessionMetadata m) now).status)

/-- The rules end the record before they derive its lifecycle, or it was dead already. -/
def EndsInOrder (m : SessionMetadata) : Prop :=
  if openingPhase m = "ending" then m.pendingTerminalStatus ≠ none ∨ m.lifecycle = "dead"
  else if openingPhase m = "ended" then
    isTerminal m.status = true ∧ (m.lifecycle = "alive" ∨ m.lifecycle = "dead")
  else isTerminal m.status = true → m.lifecycle = "dead"

theorem lifecycleForPhase_eq_dead {phase : String} (dead : lifecycleForPhase phase = "dead") :
    phase = "ended" := by
  unfold lifecycleForPhase at dead
  split_ifs at dead with creating ending ended
  · simp at dead
  · simp at dead
  · exact eq_of_beq ended
  · simp at dead

section
variable {m : SessionMetadata}

theorem opened_dead (dead : (opened m).lifecycle = "dead") :
    m.lifecycle = "dead" ∨ (m.lifecycle = "alive" ∧ openingPhase m = "ended") := by
  rw [opened_lifecycle] at dead
  split at dead
  · next alive => exact .inr ⟨alive, lifecycleForPhase_eq_dead dead⟩
  · exact .inl dead

theorem reconcile_normal (work : normalizeWorkPhase m.workPhase = m.workPhase)
    (now : String) : Normal (reconcileOrphanedSession m now) := by
  constructor <;> simp [reconcileOrphanedSession, work]

theorem coherent_of_normal (normal : Normal (normalizeSessionMetadata m))
    (closed : isTerminal (normalizeSessionMetadata m).status = true
        ∨ (normalizeSessionMetadata m).lifecyclePhase = "ended" →
      isTerminal (normalizeSessionMetadata m).status = true
        ∧ (normalizeSessionMetadata m).lifecycle = "dead") : Coherent m := by
  refine ⟨normalize_of_normal normal, ?_, fun now => ⟨?_, ?_⟩⟩
  · intro finished
    obtain ⟨terminal, dead⟩ := closed finished
    have ended := (normal.terminal terminal).1
    refine ⟨dead, normal.dead (by simp [dead]), normal.quiet (by simp [ended]), ?_⟩
    simp [recordedState, terminal, dead, ended]
  · exact normalize_of_normal (reconcile_normal normal.work now)
  · intro ending
    obtain ⟨status, pending⟩ := Option.ne_none_iff_exists'.mp (normal.ending ending).2
    simp [reconcileOrphanedSession, ending, pending]

theorem endsInOrder_of_coherent (coherent : Coherent m) : EndsInOrder m := by
  obtain ⟨-, closes, -⟩ := coherent
  rw [normalize_eq] at closes
  unfold EndsInOrder
  split_ifs with ending ended
  · by_contra neither
    rw [not_or, not_not] at neither
    obtain ⟨status, phase, lifecycle⟩ := settle_failed (m := opened m)
      ((opened_phase m).trans ending) ((opened_pending m).trans neither.1)
    have dead := (closes (.inr phase)).1
    rcases opened_dead (lifecycle ▸ dead) with dead | ⟨-, ended⟩
    · exact neither.2 dead
    · simp [ending] at ended
  · have notEnding : (opened m).lifecyclePhase ≠ "ending" := by
      rw [opened_phase]
      exact ending
    by_cases terminal : isTerminal m.status = true
    · obtain ⟨-, phase, lifecycle⟩ := settle_terminal notEnding
        (by rw [opened_status]; exact terminal)
      have dead := (closes (.inr phase)).1
      rcases opened_dead (lifecycle ▸ dead) with dead | ⟨alive, -⟩
      · exact ⟨terminal, .inr dead⟩
      · exact ⟨terminal, .inl alive⟩
    · -- an ended record with a live status is neither closed nor active
      obtain ⟨status, phase, -⟩ := settle_live notEnding
        (by rw [opened_status]; simpa using terminal)
      have state := (closes (.inr (phase.trans ((opened_phase m).trans ended)))).2.2.2
      rw [recordedState, status, opened_status, Bool.eq_false_iff.mpr terminal] at state
      simp only [Bool.false_and, Bool.false_eq_true, if_false] at state
      split at state <;> cases state
  · intro terminal
    have notEnding : (opened m).lifecyclePhase ≠ "ending" := by
      rw [opened_phase]
      exact ending
    obtain ⟨-, phase, lifecycle⟩ := settle_terminal notEnding
      (by rw [opened_status]; exact terminal)
    have dead := (closes (.inr phase)).1
    rcases opened_dead (lifecycle ▸ dead) with dead | ⟨-, phase⟩
    · exact dead
    · exact absurd phase ended

theorem opened_not_alive (phase : lifecycleForPhase (openingPhase m) ≠ "alive") :
    (opened m).lifecycle ≠ "alive" := by
  rw [opened_lifecycle]
  split
  · exact phase
  · assumption

theorem opened_of_dead (dead : m.lifecycle = "dead") :
    (opened m).lifecycle = "dead" := by
  rw [opened_lifecycle, if_neg (by simp [dead]), dead]

theorem coherent_of_terminal (phase : openingPhase m ≠ "ending")
    (terminal : isTerminal m.status = true) (dead : (opened m).lifecycle = "dead") : Coherent m := by
  have notEnding : (opened m).lifecyclePhase ≠ "ending" := by
    rw [opened_phase]
    exact phase
  have terminal' : isTerminal (opened m).status = true := by
    rw [opened_status]
    exact terminal
  obtain ⟨status, -, lifecycle⟩ := settle_terminal notEnding terminal'
  have stopped : (opened m).lifecycle ≠ "alive" := by
    rw [dead]
    decide
  refine coherent_of_normal ?_ (fun _ => ⟨?_, ?_⟩)
  · exact settle_terminal_normal notEnding terminal' stopped (opened_work m)
  · rw [normalize_eq, status]
    exact terminal'
  · rw [normalize_eq, lifecycle]
    exact dead

theorem coherent_of_endsInOrder (order : EndsInOrder m) : Coherent m := by
  unfold EndsInOrder at order
  split_ifs at order with ending ended
  · have phase : (opened m).lifecyclePhase = "ending" := (opened_phase m).trans ending
    have stopped : (opened m).lifecycle ≠ "alive" :=
      opened_not_alive (by rw [ending]; decide)
    cases pending : m.pendingTerminalStatus with
    | none =>
      have dead : m.lifecycle = "dead" := order.resolve_left (fun h => h pending)
      have pending := (opened_pending m).trans pending
      obtain ⟨status, -, lifecycle⟩ := settle_failed phase pending
      refine coherent_of_normal ?_ (fun _ => ⟨?_, ?_⟩)
      · exact settle_failed_normal phase pending stopped (opened_work m)
      · rw [normalize_eq, status]
        decide
      · rw [normalize_eq, lifecycle]
        exact opened_of_dead dead
    | some final =>
      have pending := (opened_pending m).trans pending
      obtain ⟨status, kept, -, -⟩ := settle_pending phase pending
      refine coherent_of_normal ?_ ?_
      · exact settle_pending_normal phase pending stopped (opened_work m)
      · rw [normalize_eq, status, kept]
        exact fun finished => absurd finished (by decide)
  · obtain ⟨terminal, alive | dead⟩ := order
    · refine coherent_of_terminal ending terminal ?_
      rw [opened_lifecycle, if_pos alive, ended]
      decide
    · exact coherent_of_terminal ending terminal (opened_of_dead dead)
  · by_cases terminal : isTerminal m.status = true
    · exact coherent_of_terminal ending terminal (opened_of_dead (order terminal))
    · have notEnding : (opened m).lifecyclePhase ≠ "ending" := by
        rw [opened_phase]
        exact ending
      have live : isTerminal (opened m).status = false := by
        rw [opened_status]
        exact Bool.eq_false_iff.mpr terminal
      obtain ⟨status, kept, -⟩ := settle_live notEnding live
      have filled : (opened m).lifecyclePhase ≠ "" := by
        rw [opened_phase]
        exact openingPhase_ne_empty m
      have alive : (opened m).lifecycle = "alive" →
          lifecycleForPhase (opened m).lifecyclePhase = "alive" := by
        rw [opened_phase, opened_lifecycle]
        intro alive
        split at alive
        · exact alive
        · contradiction
      refine coherent_of_normal ?_ ?_
      · exact settle_live_normal notEnding live filled alive (opened_work m)
      · rw [normalize_eq, status, kept, live, opened_phase]
        exact fun finished => absurd finished (by simp [ended])

end

/-- Normalisation is idempotent and coherent on a record exactly when no rule ends the
record behind the back of the rule for its lifecycle. -/
theorem normalisation_coherent_iff (m : SessionMetadata) : Coherent m ↔ EndsInOrder m :=
  ⟨endsInOrder_of_coherent, coherent_of_endsInOrder⟩

/-- A killed session whose stored phase was never moved on. -/
def killedWhileActive : SessionMetadata :=
  { id := "s1", label := "T", workspace := "/tmp", task := "", cwd := "/tmp"
    status := "killed", lifecyclePhase := "active", observedStatus := some "working"
    createdAt := "now", lastActivity := "now", metadataSource := "process"
    metadataConfidence := .one }

/-- A session caught while ending, with no pending status. -/
def endingWithoutPending : SessionMetadata :=
  { killedWhileActive with status := "running", lifecyclePhase := "ending" }

/-- The first record is still alive and working after one reading, and dead after two; the
second stays `stopping` for ever, so that its state is never `closed`. -/
theorem killed_record_drifts :
    (normalizeSessionMetadata killedWhileActive).lifecycle = "alive"
      ∧ (normalizeSessionMetadata (normalizeSessionMetadata killedWhileActive)).lifecycle = "dead"
      ∧ recordedState (normalizeSessionMetadata endingWithoutPending) = .unknown
      ∧ ¬ Coherent killedWhileActive ∧ ¬ Coherent endingWithoutPending := by
  refine ⟨by decide, by decide, by decide, ?_, ?_⟩
  · intro coherent
    exact absurd (coherent.2.1 (.inr (by decide))).1 (by decide)
  · intro coherent
    exact absurd (coherent.2.1 (.inr (by decide))).1 (by decide)

end Orkworksd.Metadata
