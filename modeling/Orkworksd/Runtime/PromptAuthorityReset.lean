import Orkworksd.Runtime.PromptAuthority

/- A reset of the prompt authority never rebinds the identity it retires.

   `Sound native reset` is what every pending reset keeps relative to the bound
   identity: it names the identity it retires, its candidate is another one,
   the bound identity is the retired one only while the reset is uncommitted,
   and the reservation it superseded is candidate-free, retires the same
   identity and keeps no predecessor of its own. `inv_apply` proves the entry's
   invariant for each method, `reachable_inv` for every run of the registry, and
   `retired_identity_never_rebound` reads the properties off it.

   `Tracked` is the second argument: through any chain of candidate-free resets
   and cancels the retired identity is still named by the pending reset, or the
   chain was cancelled back to the state in which that identity is bound. -/
namespace Orkworksd.PromptAuthority
open Lib

variable {sessionId : String} {native : Option String}

structure ResetReservation.Sound (native : Option String) (reset : ResetReservation) :
    Prop where
  retired : reset.retiredNativeSessionId ≠ none
  candidate : ∀ id, reset.candidateNativeSessionId = some id →
    reset.retiredNativeSessionId ≠ some id
  committed_acknowledged : reset.epochCommitted = true → reset.acknowledged = true
  uncommitted : reset.epochCommitted = false → reset.superseded = none →
    native = reset.retiredNativeSessionId
  committed : reset.epochCommitted = true →
    native = reset.candidateNativeSessionId ∨ native = none
  superseded : ∀ old, reset.superseded = some old →
    old.superseded = none ∧ old.retiredNativeSessionId = reset.retiredNativeSessionId ∧
      old.candidateFree = true ∧ (reset.epochCommitted = false → native = none)

structure Inv (entry : SessionAuthority) : Prop where
  reset : ∀ reset, entry.reset = some reset → reset.Sound entry.nativeSessionId
  revoked : entry.revoked = true → entry.reset = none

variable {reset : ResetReservation}

theorem candidateFree_iff : reset.candidateFree = true ↔
    reset.acknowledged = true ∧ reset.epochCommitted = true ∧
      reset.candidateNativeSessionId = none := by
  simp [ResetReservation.candidateFree, and_assoc]

theorem inv_issued (harnessId generation : String) (native : Option String) :
    Inv (issued harnessId generation native) :=
  ⟨by simp [issued], by simp [issued]⟩

/-! ## What each method does to the entry

Each lemma names every entry the method can leave behind. -/

theorem registerNativeId_cases (entry : SessionAuthority)
    (harnessId generation id : String) (lifecycleReset : Bool) (observedAt : Option DateTime) :
    (registerNativeId entry harnessId generation id lifecycleReset observedAt).1 = entry ∨
    (entry.revoked = false ∧ entry.nativeSessionId = none ∧ entry.reset = none ∧
      (registerNativeId entry harnessId generation id lifecycleReset observedAt).1 =
        { entry with nativeSessionId := some id }) ∨
    (∃ reset, entry.reset = some reset ∧ reset.candidateNativeSessionId = none ∧
      (entry.nativeSessionId = none → reset.retiredNativeSessionId ≠ some id) ∧
      entry.nativeSessionId ≠ some id ∧
      registerNativeId entry harnessId generation id lifecycleReset observedAt =
        (holdCandidate entry reset id, .held)) := by
  unfold registerNativeId
  split
  · exact .inl rfl
  · rename_i hguard
    simp only [Bool.or_eq_true, not_or, Bool.not_eq_true] at hguard
    split
    · rename_i hnone
      split
      · rename_i hreset
        exact .inr (.inl ⟨hguard.1.1.1, hnone, hreset, rfl⟩)
      · rename_i reset hreset
        split
        · exact .inl rfl
        · rename_i hret
          split
          · exact .inl rfl
          · split
            · exact .inl rfl
            · split
              · exact .inl rfl
              · rename_i hcand
                exact .inr (.inr ⟨reset, hreset, hcand, fun _ => hret, by simp [hnone], rfl⟩)
    · rename_i current hcur
      split
      · split
        · exact .inl rfl
        · split
          · exact .inl rfl
          · split <;> exact .inl rfl
      · rename_i hne
        split
        · exact .inl rfl
        · rename_i reset hreset
          split
          · exact .inl rfl
          · split
            · exact .inl rfl
            · split
              · exact .inl rfl
              · split
                · exact .inl rfl
                · rename_i hcand
                  exact .inr (.inr ⟨reset, hreset, hcand, by simp [hcur], by simp [hcur, hne], rfl⟩)

variable {entry : SessionAuthority}

theorem filter_candidateFree {old : ResetReservation} (hsome : entry.reset = some old)
    (hfree : old.candidateFree = true) :
    entry.reset.filter ResetReservation.candidateFree = some old := by
  rw [hsome, Option.filter_some, if_pos hfree]

theorem ResetReservation.Sound.native_none (h : reset.Sound native)
    (hfree : reset.candidateFree = true) : native = none := by
  obtain ⟨-, hcom, hcand⟩ := candidateFree_iff.mp hfree
  rcases h.committed hcom with hn | hn
  · exact hn.trans hcand
  · exact hn

/-- The reservation an accepted `reserve_reset` leaves behind. -/
def reserved (entry : SessionAuthority) (now : DateTime) : ResetReservation where
  acknowledged := false
  epochCommitted := false
  promptTupleClearApplied := false
  candidateNativeSessionId := none
  retiredNativeSessionId := entry.nativeSessionId <|>
    (entry.reset.filter ResetReservation.candidateFree).bind (·.retiredNativeSessionId)
  resetSubmissionInputSequence := none
  superseded := (entry.reset.filter ResetReservation.candidateFree).map
    (fun reset => { reset with superseded := none })
  createdAt := now
  queuedPromptWait := none

theorem reserveReset_eq (entry : SessionAuthority) (harnessId command : String)
    (now : DateTime) :
    reserveReset entry harnessId command now = (entry, false) ∨
    (entry.revoked = false ∧
      (entry.reset = none ∧ entry.nativeSessionId ≠ none ∨
        ∃ old, entry.reset = some old ∧ old.candidateFree = true) ∧
      reserveReset entry harnessId command now =
        ({ entry with reset := some (reserved entry now) }, true)) := by
  unfold reserveReset
  simp only
  split
  · exact .inl rfl
  · rename_i hguard
    simp only [Bool.or_eq_true, not_or, Bool.not_eq_true] at hguard
    obtain ⟨⟨⟨⟨hrev, -⟩, hsome⟩, -⟩, hany⟩ := hguard
    refine .inr ⟨hrev, ?_, rfl⟩
    cases hreset : entry.reset with
    | none =>
      left
      refine ⟨rfl, ?_⟩
      intro hnone
      simp [hreset, hnone] at hsome
    | some old =>
      right
      simp only [hreset, Option.any_some] at hany
      exact ⟨old, rfl, by simpa using hany⟩

theorem reserveReset_cases (entry : SessionAuthority) (harnessId command : String)
    (now : DateTime) :
    (reserveReset entry harnessId command now).1 = entry ∨
    (entry.revoked = false ∧
      (entry.reset = none ∧ entry.nativeSessionId ≠ none ∨
        ∃ old, entry.reset = some old ∧ old.candidateFree = true) ∧
      (reserveReset entry harnessId command now).1 =
        { entry with reset := some (reserved entry now) }) := by
  obtain heq | ⟨hrev, hold, heq⟩ := reserveReset_eq entry harnessId command now
  · exact .inl (by rw [heq])
  · exact .inr ⟨hrev, hold, by rw [heq]⟩

theorem completeReset_cases (entry : SessionAuthority) :
    (completeReset entry).1 = entry ∨
    (∃ reset, entry.reset = some reset ∧ reset.acknowledged = true ∧
      ((reset.candidateNativeSessionId = none ∧ reset.epochCommitted = false ∧
        (completeReset entry).1 = { entry with
          reset := some { reset with epochCommitted := true }
          epoch := saturatingSucc entry.epoch
          nativeSessionId := none
          active := false }) ∨
      (∃ candidate, reset.candidateNativeSessionId = some candidate ∧
        (completeReset entry).1 = { entry with
          nativeSessionId := some candidate
          epoch := if reset.epochCommitted then entry.epoch else saturatingSucc entry.epoch
          reset := if reset.queuedPromptWait.isNone then none
            else some { reset with epochCommitted := true }
          active := false }))) := by
  unfold completeReset
  split
  · exact .inl rfl
  · rename_i reset hreset
    split
    · exact .inl rfl
    · rename_i hack
      simp only [Bool.not_eq_true', Bool.not_eq_false] at hack
      split
      · rename_i hcand
        split
        · exact .inl rfl
        · rename_i hcom
          exact .inr ⟨reset, hreset, hack, .inl ⟨hcand, by simpa using hcom, rfl⟩⟩
      · rename_i candidate hcand
        exact .inr ⟨reset, hreset, hack, .inr ⟨candidate, hcand, rfl⟩⟩

/-! ## The invariant, method by method -/

variable {reset' : ResetReservation}

theorem ResetReservation.Sound.congr (h : reset.Sound native)
    (hcand : reset'.candidateNativeSessionId = reset.candidateNativeSessionId)
    (hret : reset'.retiredNativeSessionId = reset.retiredNativeSessionId)
    (hcom : reset'.epochCommitted = reset.epochCommitted)
    (hsup : reset'.superseded = reset.superseded)
    (hack : reset.acknowledged = true → reset'.acknowledged = true) : reset'.Sound native where
  retired := hret ▸ h.retired
  candidate := by rw [hcand, hret]; exact h.candidate
  committed_acknowledged := fun hc => hack (h.committed_acknowledged (hcom ▸ hc))
  uncommitted := by rw [hcom, hret, hsup]; exact h.uncommitted
  committed := by rw [hcom, hcand]; exact h.committed
  superseded := by rw [hsup, hret, hcom]; exact h.superseded

theorem inv_setReset {e : SessionAuthority} {r : ResetReservation} (hreset : e.reset = some r)
    (hs : r.Sound e.nativeSessionId) (hrev : e.revoked = false) : Inv e where
  reset := by intro r' hr; rw [hreset] at hr; cases hr; exact hs
  revoked := by simp [hrev]

theorem inv_noReset (h : entry.reset = none) : Inv entry :=
  ⟨by simp [h], fun _ => h⟩

section
variable (h : Inv entry)
include h

theorem Inv.not_revoked (hr : entry.reset = some reset) :
    entry.revoked = false := by
  cases hv : entry.revoked
  · rfl
  · rw [h.revoked hv] at hr; cases hr

theorem inv_registerNativeId (harnessId generation id : String)
    (lifecycleReset : Bool) (observedAt : Option DateTime) :
    Inv (registerNativeId entry harnessId generation id lifecycleReset observedAt).1 := by
  obtain heq | ⟨-, -, hreset, heq⟩ | ⟨reset, hreset, hcand, hret, hne, heq⟩ :=
    registerNativeId_cases entry harnessId generation id lifecycleReset observedAt
  · rw [heq]; exact h
  · rw [heq]; exact inv_noReset hreset
  · have hs := h.reset reset hreset
    rw [heq]
    refine inv_setReset rfl ?_ (h.not_revoked hreset)
    have hrid : reset.retiredNativeSessionId ≠ some id := by
      intro hid
      cases hcom : reset.epochCommitted
      · cases hsup : reset.superseded with
        | none => exact hne ((hs.uncommitted hcom hsup).trans hid)
        | some old => exact hret ((hs.superseded old hsup).2.2.2 hcom) hid
      · rcases hs.committed hcom with hn | hn
        · exact hret (hn.trans hcand) hid
        · exact hret hn hid
    refine ⟨hs.retired, ?_, hs.committed_acknowledged, hs.uncommitted, ?_, hs.superseded⟩
    · intro c hc; cases hc; exact hrid
    · intro hcom
      -- a committed reset without a candidate has nothing bound
      rcases hs.committed hcom with hn | hn
      · exact .inr (hn.trans hcand)
      · exact .inr hn

theorem inv_reserveReset (harnessId command : String) (now : DateTime) :
    Inv (reserveReset entry harnessId command now).1 := by
  obtain heq | ⟨hrev, hold, heq⟩ := reserveReset_cases entry harnessId command now
  · rw [heq]; exact h
  · rw [heq]
    refine inv_setReset rfl ?_ hrev
    show (reserved entry now).Sound entry.nativeSessionId
    rcases hold with ⟨hnone, hnative⟩ | ⟨old, hsome, hfree⟩
    · refine ⟨?_, by simp [reserved], by simp [reserved], ?_, by simp [reserved], ?_⟩
      · simp [reserved, hnone, hnative]
      · simp [reserved, hnone]
      · simp [reserved, hnone]
    · have hs := h.reset old hsome
      have hn := hs.native_none hfree
      have hf := filter_candidateFree hsome hfree
      refine ⟨?_, by simp [reserved], by simp [reserved], by simp [reserved, hf],
        by simp [reserved], ?_⟩
      · simpa [reserved, hf, hn] using hs.retired
      · intro p hp
        simp only [reserved, hf, Option.map_some, Option.some.injEq] at hp
        subst hp
        exact ⟨rfl, by simp [reserved, hf, hn], hfree, fun _ => hn⟩

theorem inv_completeReset : Inv (completeReset entry).1 := by
  obtain heq | ⟨reset, hreset, hack, ⟨hcand, hcom, heq⟩ | ⟨candidate, hcand, heq⟩⟩ :=
    completeReset_cases entry
  · rw [heq]; exact h
  · have hs := h.reset reset hreset
    rw [heq]
    refine inv_setReset rfl ?_ (h.not_revoked hreset)
    refine ⟨hs.retired, hs.candidate, fun _ => hack, by simp, fun _ => .inr rfl, ?_⟩
    intro p hp
    obtain ⟨h1, h2, h3, -⟩ := hs.superseded p hp
    exact ⟨h1, h2, h3, by simp⟩
  · have hs := h.reset reset hreset
    rw [heq]
    cases hq : reset.queuedPromptWait with
    | none => exact inv_noReset (by simp)
    | some queued =>
      simp only [Option.isNone_some, Bool.false_eq_true, if_false]
      refine inv_setReset rfl ?_ (h.not_revoked hreset)
      refine ⟨hs.retired, hs.candidate, fun _ => hack, by simp, fun _ => .inl hcand.symm, ?_⟩
      intro p hp
      obtain ⟨h1, h2, h3, -⟩ := hs.superseded p hp
      exact ⟨h1, h2, h3, by simp⟩

theorem inv_cancelReset
    (hadm : ∀ reset, entry.reset = some reset → reset.acknowledged = false) :
    Inv (cancelReset entry) := by
  cases hreset : entry.reset with
  | none => exact inv_noReset (by simp [cancelReset, hreset])
  | some reset =>
    have hs := h.reset reset hreset
    cases hsup : reset.superseded with
    | none => exact inv_noReset (by simp [cancelReset, hreset, hsup])
    | some old =>
      obtain ⟨hdeep, hret, hfree, hnative⟩ := hs.superseded old hsup
      obtain ⟨hack, hcom, hcand⟩ := candidateFree_iff.mp hfree
      have hunc : reset.epochCommitted = false := by
        cases hc : reset.epochCommitted
        · rfl
        · have := hs.committed_acknowledged hc; rw [hadm reset hreset] at this; cases this
      refine inv_setReset (r := old) (by simp [cancelReset, hreset, hsup]) ?_
        (h.not_revoked hreset)
      refine ⟨hret ▸ hs.retired, by simp [hcand], fun _ => hack, by simp [hcom],
        fun _ => .inr (hnative hunc), by simp [hdeep]⟩

theorem inv_acknowledgeReset : Inv (acknowledgeReset entry).1 := by
  unfold acknowledgeReset
  split
  · exact h
  · split
    · exact h
    · rename_i reset hreset
      exact inv_setReset rfl ((h.reset reset hreset).congr rfl rfl rfl rfl (fun _ => rfl))
        (h.not_revoked hreset)

theorem inv_markResetPromptTupleClearApplied :
    Inv (markResetPromptTupleClearApplied entry).1 := by
  unfold markResetPromptTupleClearApplied
  split
  · exact h
  · rename_i reset hreset
    split
    · exact h
    · exact inv_setReset rfl ((h.reset reset hreset).congr rfl rfl rfl rfl id)
        (h.not_revoked hreset)

theorem inv_noteResetSubmissionInputSequence (n : Nat) :
    Inv (noteResetSubmissionInputSequence entry n) := by
  cases hreset : entry.reset with
  | none => exact inv_noReset (by simp [noteResetSubmissionInputSequence, hreset])
  | some reset =>
    exact inv_setReset (r := { reset with resetSubmissionInputSequence := some n })
      (by simp [noteResetSubmissionInputSequence, hreset])
      ((h.reset reset hreset).congr rfl rfl rfl rfl id) (h.not_revoked hreset)

theorem inv_queuePromptWait (harnessId generation id notificationType : String)
    (observedAt : Option DateTime) (receipt committed : Nat) (cwd : Option String) :
    Inv (queuePromptWait entry harnessId generation id notificationType observedAt receipt
      committed cwd).1 := by
  unfold queuePromptWait
  split
  · exact h
  · split
    · exact h
    · rename_i reset hreset
      split
      · exact h
      · split
        · exact inv_setReset rfl
            ((h.reset reset hreset).congr rfl rfl rfl rfl (fun h => h)) (h.not_revoked hreset)
        · exact h

variable {entry' : SessionAuthority}

/-- An update that touches neither the reset, the bound identity nor the
revocation keeps the invariant. -/
theorem inv_frame (hreset : entry'.reset = entry.reset)
    (hn : entry'.nativeSessionId = entry.nativeSessionId) (hrev : entry'.revoked = entry.revoked) :
    Inv entry' :=
  ⟨by rw [hreset, hn]; exact h.reset, by rw [hreset, hrev]; exact h.revoked⟩

theorem inv_apply (op : Op) (hadm : op.Admitted entry) : Inv (op.apply entry) := by
  cases op with
  | registerNativeId => exact inv_registerNativeId h ..
  | reserveReset => exact inv_reserveReset h ..
  | acknowledgeReset => exact inv_acknowledgeReset h
  | completeReset => exact inv_completeReset h
  | markResetPromptTupleClearApplied => exact inv_markResetPromptTupleClearApplied h
  | noteResetSubmissionInputSequence => exact inv_noteResetSubmissionInputSequence h _
  | deactivateForReset =>
    simp only [Op.apply, deactivateForReset]
    split
    · exact inv_frame h rfl rfl rfl
    · exact h
  | finishQueuedPromptWait =>
    simp only [Op.apply, finishQueuedPromptWait]
    split
    · exact h
    · split
      · exact h
      · exact inv_noReset rfl
  | queuePromptWait => exact inv_queuePromptWait h ..
  | cancelReset => exact inv_cancelReset h hadm
  | activate =>
    simp only [Op.apply, activate]
    split
    · exact h
    · exact inv_frame h rfl rfl rfl
  | scheduleResetRetry =>
    simp only [Op.apply, scheduleResetRetry]
    split
    · exact h
    · split <;> exact inv_frame h rfl rfl rfl
  | finishResetRetry =>
    simp only [Op.apply, finishResetRetry]
    split <;> exact inv_frame h rfl rfl rfl
  | revoke =>
    simp only [Op.apply, revoke]
    split
    · exact inv_noReset rfl
    · exact h

end

/-! ## Runs of the registry -/

/-- Every authority of the registry satisfies the invariant. -/
def RegistryInv (registry : Registry) : Prop :=
  ∀ sessionId entry, registry sessionId = some entry → Inv entry

theorem modify_self (registry : Registry) (sessionId : String)
    (f : SessionAuthority → SessionAuthority) :
    registry.modify sessionId f sessionId = (registry sessionId).map f := by
  simp [Registry.modify]

theorem modify_other (registry : Registry) {other : String} (h : other ≠ sessionId)
    (f : SessionAuthority → SessionAuthority) :
    registry.modify sessionId f other = registry other := by
  simp [Registry.modify, h]

variable {after registry : Registry} {call : String × Op}

/-- What a call does to one session's authority: it is the target of an admitted
method, or the call was on another session. -/
theorem step_entry (hs : Step registry call after) (he : after sessionId = some entry) :
    (call.1 = sessionId ∧ ∃ old, registry sessionId = some old ∧ call.2.Admitted old ∧
      entry = call.2.apply old) ∨ (call.1 ≠ sessionId ∧ registry sessionId = some entry) := by
  obtain ⟨hadm, rfl⟩ := hs
  by_cases hid : sessionId = call.1
  · subst hid
    rw [modify_self, Option.map_eq_some_iff] at he
    obtain ⟨old, hold, rfl⟩ := he
    exact .inl ⟨rfl, old, hold, hadm old hold, rfl⟩
  · rw [modify_other _ hid] at he
    exact .inr ⟨Ne.symm hid, he⟩

theorem registryInv_step (h : RegistryInv registry) (hs : Step registry call after) :
    RegistryInv after := by
  intro sessionId entry he
  obtain ⟨-, old, hold, hadm, rfl⟩ | ⟨-, hsame⟩ := step_entry hs he
  · exact inv_apply (h sessionId old hold) call.2 hadm
  · exact h sessionId entry hsame

/-- The registry that holds one freshly issued authority. -/
def issuedRegistry (sessionId harnessId generation : String) (native : Option String) :
    Registry :=
  Function.update (fun _ => none) sessionId (some (issued harnessId generation native))

theorem registryInv_issued (sessionId harnessId generation : String) (native : Option String) :
    RegistryInv (issuedRegistry sessionId harnessId generation native) := by
  intro other entry he
  by_cases hid : other = sessionId
  · subst hid
    simp only [issuedRegistry, Function.update_self, Option.some.injEq] at he
    subst he
    exact inv_issued harnessId generation native
  · simp [issuedRegistry, hid] at he

/-! ## The issued generation, and revocation -/

variable (op : Op)

@[simp] theorem apply_generation (entry : SessionAuthority) :
    (op.apply entry).generation = entry.generation := by
  cases op with
  | registerNativeId harnessId generation id lifecycleReset observedAt =>
    obtain heq | ⟨-, -, -, heq⟩ | ⟨reset, -, -, -, -, heq⟩ :=
      registerNativeId_cases entry harnessId generation id lifecycleReset observedAt
    all_goals simp [Op.apply, heq, holdCandidate]
  | reserveReset harnessId command now =>
    obtain heq | ⟨-, -, heq⟩ := reserveReset_cases entry harnessId command now
    all_goals simp [Op.apply, heq]
  | completeReset =>
    obtain heq | ⟨reset, -, -, ⟨-, -, heq⟩ | ⟨candidate, -, heq⟩⟩ := completeReset_cases entry
    all_goals simp [Op.apply, heq]
  | acknowledgeReset => simp only [Op.apply, acknowledgeReset]; split <;> [rfl; split <;> rfl]
  | markResetPromptTupleClearApplied =>
    simp only [Op.apply, markResetPromptTupleClearApplied]; split <;> [rfl; split <;> rfl]
  | noteResetSubmissionInputSequence => rfl
  | deactivateForReset => simp only [Op.apply, deactivateForReset]; split <;> rfl
  | finishQueuedPromptWait =>
    simp only [Op.apply, finishQueuedPromptWait]; split <;> [rfl; split <;> rfl]
  | queuePromptWait =>
    simp only [Op.apply, queuePromptWait]
    split
    · rfl
    · split
      · rfl
      · split <;> [rfl; split <;> rfl]
  | cancelReset => rfl
  | activate => simp only [Op.apply, activate]; split <;> rfl
  | scheduleResetRetry =>
    simp only [Op.apply, scheduleResetRetry]; split <;> [rfl; split <;> rfl]
  | finishResetRetry => simp only [Op.apply, finishResetRetry]; split <;> rfl
  | revoke => simp only [Op.apply, revoke]; split <;> rfl

theorem apply_revoked (h : entry.revoked = true) : (op.apply entry).revoked = true := by
  cases op with
  | registerNativeId => simp [Op.apply, registerNativeId, h]
  | reserveReset => simp [Op.apply, reserveReset, h]
  | completeReset =>
    obtain heq | ⟨reset, -, -, ⟨-, -, heq⟩ | ⟨candidate, -, heq⟩⟩ := completeReset_cases entry
    all_goals simp [Op.apply, heq, h]
  | acknowledgeReset => simp [Op.apply, acknowledgeReset, h]
  | markResetPromptTupleClearApplied =>
    simp only [Op.apply, markResetPromptTupleClearApplied]; split <;> [exact h; split <;> exact h]
  | noteResetSubmissionInputSequence => exact h
  | deactivateForReset => simp [Op.apply, deactivateForReset, h]
  | finishQueuedPromptWait =>
    simp only [Op.apply, finishQueuedPromptWait]; split <;> [exact h; split <;> exact h]
  | queuePromptWait => simp [Op.apply, queuePromptWait, h]
  | cancelReset => exact h
  | activate => simp [Op.apply, activate, h]
  | scheduleResetRetry =>
    simp only [Op.apply, scheduleResetRetry]; split <;> [exact h; split <;> exact h]
  | finishResetRetry => simp only [Op.apply, finishResetRetry]; split <;> exact h
  | revoke => simp only [Op.apply, revoke]; split <;> [rfl; exact h]

theorem revoked_inert (h : Inv entry) (hrev : entry.revoked = true) :
    entry.reset = none ∧ completeReset entry = (entry, none) ∧
      ∀ harnessId generation id,
        (∀ lifecycleReset observedAt,
          registerNativeId entry harnessId generation id lifecycleReset observedAt =
            (entry, .rejected)) ∧
        activate entry harnessId generation id = (entry, false) ∧
        nativeIdMatches entry harnessId generation id = false := by
  have hreset := h.revoked hrev
  refine ⟨hreset, by simp [completeReset, hreset], ?_⟩
  intro harnessId generation id
  refine ⟨?_, by simp [activate, hrev], by simp [nativeIdMatches, hrev]⟩
  intro lifecycleReset observedAt
  simp [registerNativeId, hrev]

/-! ## The retired identity through a chain of resets -/

/-- `id` is retired by the pending reset, or no reset is pending and it is bound. -/
def Tracked (id : String) (entry : SessionAuthority) : Prop :=
  (∃ reset, entry.reset = some reset ∧ reset.retiredNativeSessionId = some id) ∨
    (entry.reset = none ∧ entry.nativeSessionId = some id)

/-- The methods of a candidate-free chain: a completion finds no candidate, and
no queued wait is finished and no authority revoked. -/
def Op.InChain (entry : SessionAuthority) : Op → Prop
  | .completeReset =>
    ∀ reset, entry.reset = some reset → reset.candidateNativeSessionId = none
  | .finishQueuedPromptWait _ => False
  | .revoke _ => False
  | _ => True

variable {id : String}

theorem tracked_frame (h : Tracked id entry) (hreset : entry'.reset = entry.reset)
    (hn : entry'.nativeSessionId = entry.nativeSessionId) : Tracked id entry' := by
  unfold Tracked
  rw [hreset, hn]
  exact h

theorem tracked_setReset (h : Tracked id entry) (hreset : entry.reset = some reset)
    (hreset' : entry'.reset = some reset')
    (hret : reset'.retiredNativeSessionId = reset.retiredNativeSessionId) : Tracked id entry' := by
  rcases h with ⟨r, hr, hid⟩ | ⟨hnone, -⟩
  · rw [hreset] at hr
    cases hr
    exact .inl ⟨reset', hreset', hret.trans hid⟩
  · rw [hreset] at hnone; cases hnone

theorem tracked_reserveReset (hinv : Inv entry) (h : Tracked id entry) (harnessId command : String)
    (now : DateTime) : Tracked id (reserveReset entry harnessId command now).1 := by
  obtain heq | ⟨-, hold, heq⟩ := reserveReset_cases entry harnessId command now
  · rw [heq]; exact h
  · rw [heq]
    refine .inl ⟨reserved entry now, rfl, ?_⟩
    rcases h with ⟨reset, hreset, hid⟩ | ⟨hnone, hnative⟩
    · rcases hold with ⟨hnone, -⟩ | ⟨old, hsome, hfree⟩
      · rw [hreset] at hnone; cases hnone
      · have heq' : reset = old := by rw [hreset] at hsome; exact Option.some.inj hsome
        subst heq'
        have hn := (hinv.reset reset hreset).native_none hfree
        simp [reserved, filter_candidateFree hreset hfree, hn, hid]
    · simp [reserved, hnone, hnative]

theorem tracked_cancelReset (hinv : Inv entry) (h : Tracked id entry)
    (hadm : ∀ reset, entry.reset = some reset → reset.acknowledged = false) :
    Tracked id (cancelReset entry) := by
  rcases h with ⟨reset, hreset, hid⟩ | ⟨hnone, hnative⟩
  · have hs := hinv.reset reset hreset
    cases hsup : reset.superseded with
    | none =>
      -- the chain is cancelled back to its first reservation: the identity is still bound
      have hunc : reset.epochCommitted = false := by
        cases hc : reset.epochCommitted
        · rfl
        · have := hs.committed_acknowledged hc; rw [hadm reset hreset] at this; cases this
      exact .inr ⟨by simp [cancelReset, hreset, hsup], (hs.uncommitted hunc hsup).trans hid⟩
    | some old =>
      exact .inl ⟨old, by simp [cancelReset, hreset, hsup],
        ((hs.superseded old hsup).2.1).trans hid⟩
  · exact .inr ⟨by simp [cancelReset, hnone], hnative⟩

theorem tracked_apply (hinv : Inv entry) (h : Tracked id entry) (op : Op) (hadm : op.Admitted entry)
    (hchain : op.InChain entry) : Tracked id (op.apply entry) := by
  cases op with
  | registerNativeId harnessId generation native lifecycleReset observedAt =>
    obtain heq | ⟨-, hn, hreset, heq⟩ | ⟨reset, hreset, -, -, -, heq⟩ :=
      registerNativeId_cases entry harnessId generation native lifecycleReset observedAt
    · simpa [Op.apply, heq] using h
    · -- with no reset pending the tracked identity is bound, so nothing else binds
      rcases h with ⟨r, hr, -⟩ | ⟨-, hbound⟩
      · rw [hreset] at hr; cases hr
      · rw [hn] at hbound; cases hbound
    · simp only [Op.apply, heq]
      exact tracked_setReset h hreset rfl rfl
  | reserveReset => exact tracked_reserveReset hinv h ..
  | acknowledgeReset =>
    simp only [Op.apply, acknowledgeReset]
    split
    · exact h
    · split
      · exact h
      · rename_i reset hreset
        exact tracked_setReset h hreset rfl rfl
  | completeReset =>
    obtain heq | ⟨reset, hreset, -, ⟨-, -, heq⟩ | ⟨candidate, hcand, -⟩⟩ :=
      completeReset_cases entry
    · simpa [Op.apply, heq] using h
    · simp only [Op.apply, heq]
      exact tracked_setReset h hreset rfl rfl
    · rw [hchain reset hreset] at hcand; cases hcand
  | markResetPromptTupleClearApplied =>
    simp only [Op.apply, markResetPromptTupleClearApplied]
    split
    · exact h
    · rename_i reset hreset
      split
      · exact h
      · exact tracked_setReset h hreset rfl rfl
  | noteResetSubmissionInputSequence inputSequence =>
    cases hreset : entry.reset with
    | none =>
      exact tracked_frame h (by simp [Op.apply, noteResetSubmissionInputSequence, hreset]) rfl
    | some reset =>
      have hnew : (Op.apply entry (.noteResetSubmissionInputSequence inputSequence)).reset =
          some { reset with resetSubmissionInputSequence := some inputSequence } := by
        simp [Op.apply, noteResetSubmissionInputSequence, hreset]
      exact tracked_setReset h hreset hnew rfl
  | deactivateForReset =>
    simp only [Op.apply, deactivateForReset]
    split
    · exact tracked_frame h rfl rfl
    · exact h
  | finishQueuedPromptWait => exact hchain.elim
  | queuePromptWait =>
    simp only [Op.apply, queuePromptWait]
    split
    · exact h
    · split
      · exact h
      · rename_i reset hreset
        split
        · exact h
        · split
          · exact tracked_setReset h hreset rfl rfl
          · exact h
  | cancelReset => exact tracked_cancelReset hinv h hadm
  | activate =>
    simp only [Op.apply, activate]
    split
    · exact h
    · exact tracked_frame h rfl rfl
  | scheduleResetRetry =>
    simp only [Op.apply, scheduleResetRetry]
    split
    · exact h
    · split <;> exact tracked_frame h rfl rfl
  | finishResetRetry =>
    simp only [Op.apply, finishResetRetry]
    split <;> exact tracked_frame h rfl rfl
  | revoke => exact hchain.elim

/-- A step of a candidate-free chain on one session; other sessions are free. -/
def ChainStep (sessionId : String) (registry : Registry) (call : String × Op)
    (after : Registry) : Prop :=
  Step registry call after ∧
    (call.1 = sessionId → ∀ entry, registry sessionId = some entry → call.2.InChain entry)

/-- The authority is still there, and `id` is tracked by it. -/
def TrackedAt (sessionId id : String) (registry : Registry) : Prop :=
  ∃ entry, registry sessionId = some entry ∧ Tracked id entry

theorem trackedAt_step (hinv : RegistryInv registry) (h : TrackedAt sessionId id registry)
    (hs : ChainStep sessionId registry call after) :
    TrackedAt sessionId id after := by
  obtain ⟨entry, he, ht⟩ := h
  obtain ⟨⟨hadm, rfl⟩, hchain⟩ := hs
  by_cases hid : call.1 = sessionId
  · subst hid
    refine ⟨call.2.apply entry, by simp [modify_self, he], ?_⟩
    exact tracked_apply (hinv _ entry he) ht call.2 (hadm entry he) (hchain rfl entry he)
  · exact ⟨entry, by rw [modify_other _ (Ne.symm hid)]; exact he, ht⟩

/-! ## Main results -/

section
variable {sessionId harnessId generation : String} {native : Option String}

variable {calls : List (String × Op)}

theorem reachable_inv
    (h : Run Step (issuedRegistry sessionId harnessId generation native) calls registry) :
    RegistryInv registry :=
  Run.invariant RegistryInv (registryInv_issued _ _ _ _) registryInv_step h

theorem reachable_revoked
    (h : Run Step (issuedRegistry sessionId harnessId generation native) calls registry)
    (he : registry sessionId = some entry) :
    entry.generation = generation ∧
      ((sessionId, Op.revoke generation) ∈ calls → entry.revoked = true) := by
  revert entry
  refine Run.history (fun calls registry => ∀ {entry}, registry sessionId = some entry →
    entry.generation = generation ∧
      ((sessionId, Op.revoke generation) ∈ calls → entry.revoked = true)) ?_ ?_ h
  · intro entry he
    simp only [issuedRegistry, Function.update_self, Option.some.injEq] at he
    subst he
    exact ⟨rfl, by simp⟩
  · intro calls registry call after _ ih hs entry he
    obtain ⟨hid, old, hold, -, rfl⟩ | ⟨hid, hsame⟩ := step_entry hs he
    · obtain ⟨hgen, hrev⟩ := ih hold
      refine ⟨by rw [apply_generation, hgen], ?_⟩
      intro hmem
      rcases List.mem_cons.mp hmem with hnow | hpast
      · -- the revocation is this call, under the authority's own generation
        subst hnow
        simp [Op.apply, revoke, hgen]
      · exact apply_revoked call.2 (hrev hpast)
    · obtain ⟨hgen, hrev⟩ := ih hsame
      refine ⟨hgen, ?_⟩
      intro hmem
      rcases List.mem_cons.mp hmem with hnow | hpast
      · subst hnow; exact absurd rfl hid
      · exact hrev hpast

theorem completeReset_unbinds {after : SessionAuthority} {commit : ResetCommit} (h : Inv entry)
    (hreset : entry.reset = some reset) (hc : completeReset entry = (after, some commit)) :
    after.nativeSessionId ≠ reset.retiredNativeSessionId := by
  have hs := h.reset reset hreset
  have hfst : (completeReset entry).1 = after := by rw [hc]
  unfold completeReset at hc
  simp only [hreset] at hc
  split at hc
  · simp at hc
  · rename_i hack
    split at hc
    · rename_i hcand
      split at hc
      · rename_i hcom
        have hafter : entry = after := by simpa using congrArg Prod.fst hc
        have hfree : reset.candidateFree = true :=
          candidateFree_iff.mpr ⟨by simpa using hack, hcom, hcand⟩
        rw [← hafter, hs.native_none hfree]
        exact Ne.symm hs.retired
      · have hafter := congrArg Prod.fst hc
        simp only at hafter
        rw [← hafter]
        exact Ne.symm hs.retired
    · rename_i candidate hcand
      have hafter := congrArg Prod.fst hc
      simp only at hafter
      rw [← hafter]
      exact Ne.symm (hs.candidate candidate hcand)

/-- **A reset never rebinds the identity it retires.** For every run of calls on
an issued authority, a cancel coming only before its reset's acknowledgement:
a pending candidate is not the identity the reset retires; a completion leaves
the retired identity unbound; the retired identity is tracked through every
chain of candidate-free resets and cancels; one superseded reservation at most
is kept; nothing matches while a reservation is uncommitted; and after a
revocation no reset is pending and nothing binds. -/
theorem retired_identity_never_rebound {calls : List (String × Op)} {registry : Registry}
    (hrun : Run Step (issuedRegistry sessionId harnessId generation native) calls registry)
    {entry : SessionAuthority} (he : registry sessionId = some entry) :
    (∀ reset, entry.reset = some reset →
      reset.retiredNativeSessionId ≠ none ∧
      (∀ id, reset.candidateNativeSessionId = some id → reset.retiredNativeSessionId ≠ some id) ∧
      (∀ after commit, completeReset entry = (after, some commit) →
        after.nativeSessionId ≠ reset.retiredNativeSessionId) ∧
      (∀ id, reset.retiredNativeSessionId = some id →
        ∀ chain later, Run (ChainStep sessionId) registry chain later →
          TrackedAt sessionId id later) ∧
      (∀ old, reset.superseded = some old → old.superseded = none) ∧
      (reset.epochCommitted = false → ∀ harness gen id,
        nativeIdMatches entry harness gen id = false)) ∧
    ((sessionId, Op.revoke generation) ∈ calls →
      entry.reset = none ∧ completeReset entry = (entry, none) ∧
        ∀ harness gen id,
          (∀ lifecycleReset observedAt,
            registerNativeId entry harness gen id lifecycleReset observedAt =
              (entry, .rejected)) ∧
          activate entry harness gen id = (entry, false) ∧
          nativeIdMatches entry harness gen id = false) := by
  have hreg := reachable_inv hrun
  have hinv := hreg sessionId entry he
  refine ⟨?_, ?_⟩
  · intro reset hreset
    have hs := hinv.reset reset hreset
    refine ⟨hs.retired, hs.candidate, fun after commit hc => completeReset_unbinds hinv hreset hc,
      ?_, fun old hold => (hs.superseded old hold).1, ?_⟩
    · intro id hid chain later hchain
      -- the chain's steps are steps of the registry, so its invariant goes along
      have hboth : RegistryInv later ∧ TrackedAt sessionId id later := by
        refine Run.invariant (fun r => RegistryInv r ∧ TrackedAt sessionId id r)
          ⟨hreg, entry, he, .inl ⟨reset, hreset, hid⟩⟩ ?_ hchain
        intro s a t hst hstep
        exact ⟨registryInv_step hst.1 hstep.1, trackedAt_step hst.1 hst.2 hstep⟩
      exact hboth.2
    · intro hunc harness gen id
      simp [nativeIdMatches, hreset, hunc]
  · intro hmem
    exact revoked_inert hinv ((reachable_revoked hrun he).2 hmem)

end

/-- A session bound to `a` after an accepted `/clear`. -/
def clearedRegistry : Registry :=
  (issuedRegistry "s" "claude-code" "g" (some "a")).modify "s"
    (fun entry => Op.apply entry (.reserveReset "claude-code" "/clear" 0))

/-- The reset of a cleared session, acknowledged and completed without a
candidate, still names `a`. -/
theorem cleared_identity_tracked :
    TrackedAt "s" "a" ((clearedRegistry.modify "s" (fun entry => Op.apply entry
      .acknowledgeReset)).modify "s" (fun entry => Op.apply entry .completeReset)) := by
  have hrun : Run Step (issuedRegistry "s" "claude-code" "g" (some "a"))
      [("s", .reserveReset "claude-code" "/clear" 0)] clearedRegistry :=
    .next .start ⟨fun _ _ => trivial, rfl⟩
  refine ((retired_identity_never_rebound hrun rfl).1 _ rfl).2.2.2.1 "a" rfl
    [("s", .completeReset), ("s", .acknowledgeReset)] _ ?_
  refine .next (.next .start ⟨⟨fun _ _ => trivial, rfl⟩, fun _ _ _ => trivial⟩)
    ⟨⟨fun _ _ => trivial, rfl⟩, ?_⟩
  intro _ entry he reset hreset
  cases he
  cases hreset
  rfl

end Orkworksd.PromptAuthority
