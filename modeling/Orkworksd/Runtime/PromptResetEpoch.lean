import Mathlib.Data.Finset.Card
import Mathlib.Data.Finset.Option
import Orkworksd.Runtime.PromptAuthorityReset

/- The epoch of a prompt authority counts its completed resets.

   `History` numbers the reservations of one issued authority in the order in
   which `reserve_reset` accepts them, and collects the numbers of those that
   were acknowledged and of those for which `complete_reset` returned an outcome.
   `History.Inv` ties the numbers to the entry: the pending reservation is in
   `completed` exactly when its epoch is committed, so a retry never counts it
   twice, and a reservation that a cancel restores was committed before. No call
   is excluded: a cancel may come at any time.

   What is proved, for every sequence of calls (`reset_epoch_advances_once`):
     1. the epoch is the number of completed reservations, up to `u64::MAX`;
     2. a completion is answered alike on every retry while nothing is recorded
        for its reservation and nothing releases it;
     3. a queued prompt wait stays queued, or makes way for a later one, until it
        is finished under its own receipt sequence, cancelled or revoked. -/
namespace Orkworksd.PromptAuthority

variable {observedAt : Option DateTime}

/-! ## The order of queued waits -/

/-- `after` is later than `before` in (`observed_at`, `receipt_sequence`). Waits
of which only one has an observation time are not compared. -/
def QueuedPromptWait.Later (before after : QueuedPromptWait) : Prop :=
  (∃ a b, before.observedAt = some a ∧ after.observedAt = some b ∧
    (a < b ∨ a = b ∧ before.receiptSequence < after.receiptSequence)) ∨
  (before.observedAt = none ∧ after.observedAt = none ∧
    before.receiptSequence < after.receiptSequence)

theorem QueuedPromptWait.Later.trans {p q r : QueuedPromptWait} (hpq : p.Later q)
    (hqr : q.Later r) : p.Later r := by
  rcases hpq with ⟨a, b, ha, hb, hab⟩ | ⟨ha, hb, hab⟩
  · rcases hqr with ⟨b', c, hb', hc, hbc⟩ | ⟨hb', -, -⟩
    · rw [hb, Option.some.injEq] at hb'
      subst hb'
      refine .inl ⟨a, c, ha, hc, ?_⟩
      rcases hab with hab | ⟨rfl, hab⟩
      · rcases hbc with hbc | ⟨rfl, -⟩
        · exact .inl (lt_trans hab hbc)
        · exact .inl hab
      · rcases hbc with hbc | ⟨rfl, hbc⟩
        · exact .inl hbc
        · exact .inr ⟨rfl, lt_trans hab hbc⟩
    · rw [hb] at hb'; cases hb'
  · rcases hqr with ⟨b', c, hb', -, -⟩ | ⟨-, hc, hbc⟩
    · rw [hb] at hb'; cases hb'
    · exact .inr ⟨ha, hc, by omega⟩

theorem later_of_laterThanQueued {previous : QueuedPromptWait} {next : QueuedPromptWait}
    (h : laterThanQueued previous next.observedAt next.receiptSequence = true) :
    previous.Later next := by
  unfold laterThanQueued at h
  split at h
  · rename_i a b ha hb
    simp only [Bool.or_eq_true, Bool.and_eq_true, decide_eq_true_eq, beq_iff_eq] at h
    refine .inl ⟨a, b, ha, hb, ?_⟩
    rcases h with h | ⟨heq, h⟩
    · exact .inl h
    · exact .inr ⟨heq.symm, h⟩
  · rename_i ha hb
    exact .inr ⟨ha, hb, by simpa using h⟩
  · cases h

/-! ## What a call does to the pending reservation -/

/-- The calls that neither reserve, acknowledge, complete nor cancel a reset. -/
def Op.Quiet : Op → Prop
  | .reserveReset _ _ _ => False
  | .acknowledgeReset => False
  | .completeReset => False
  | .cancelReset => False
  | _ => True

/-- The calls that give up the pending reservation: its queued wait is finished
under the wait's own receipt sequence, the reset is cancelled, or the authority
is revoked under its own generation. -/
def Op.Releases (entry : SessionAuthority) : Op → Prop
  | .finishQueuedPromptWait receiptSequence =>
    ∃ reset queued, entry.reset = some reset ∧ reset.queuedPromptWait = some queued ∧
      queued.receiptSequence = receiptSequence
  | .cancelReset => True
  | .revoke generation => entry.generation = generation
  | _ => False

/-- What a quiet call may change of a reservation it leaves pending: it holds a
first candidate, or queues a wait that is later than the queued one. -/
structure ResetReservation.Kept (before after : ResetReservation) : Prop where
  acknowledged : after.acknowledged = before.acknowledged
  epochCommitted : after.epochCommitted = before.epochCommitted
  superseded : after.superseded = before.superseded
  candidate : after.candidateNativeSessionId = before.candidateNativeSessionId ∨
    before.candidateNativeSessionId = none ∧ after.candidateNativeSessionId ≠ none
  queued : after.queuedPromptWait = before.queuedPromptWait ∨
    after.candidateNativeSessionId ≠ none ∧
      ∃ next, after.queuedPromptWait = some next ∧
        ∀ previous, before.queuedPromptWait = some previous → previous.Later next

theorem ResetReservation.Kept.refl (reset : ResetReservation) : reset.Kept reset :=
  ⟨rfl, rfl, rfl, .inl rfl, .inl rfl⟩

/-- The reservation after a call came from a pending one, or the call released it. -/
def Keeps (entry after : SessionAuthority) (op : Op) : Prop :=
  after.epoch = entry.epoch ∧
    (after.reset = entry.reset ∨
      (∃ reset reset', entry.reset = some reset ∧ after.reset = some reset' ∧ reset.Kept reset') ∨
      (op.Releases entry ∧ after.reset = none))

theorem keeps_queuePromptWait (entry : SessionAuthority)
    (harnessId generation id notificationType : String) (observedAt : Option DateTime)
    (receipt committed : Nat) (cwd : Option String) :
    Keeps entry (queuePromptWait entry harnessId generation id notificationType observedAt
      receipt committed cwd).1 (.queuePromptWait harnessId generation id notificationType
        observedAt receipt committed cwd) := by
  unfold queuePromptWait
  split
  · exact ⟨rfl, .inl rfl⟩
  · split
    · exact ⟨rfl, .inl rfl⟩
    · rename_i reset hreset
      split
      · exact ⟨rfl, .inl rfl⟩
      · rename_i hcand
        split
        · rename_i hlater
          refine ⟨rfl, .inr (.inl ⟨reset, _, hreset, rfl, rfl, rfl, rfl, .inl rfl, .inr ⟨?_, ?_⟩⟩)⟩
          · have hsome : reset.candidateNativeSessionId = some id := by simpa using hcand
            simp [hsome]
          · refine ⟨_, rfl, ?_⟩
            intro previous hprev
            rw [hprev, Option.all_some] at hlater
            exact later_of_laterThanQueued hlater
        · exact ⟨rfl, .inl rfl⟩

theorem keeps_registerNativeId (entry : SessionAuthority) (harnessId generation id : String)
    (lifecycleReset : Bool) (observedAt : Option DateTime) :
    Keeps entry (registerNativeId entry harnessId generation id lifecycleReset observedAt).1
      (.registerNativeId harnessId generation id lifecycleReset observedAt) := by
  obtain heq | ⟨-, -, -, heq⟩ | ⟨reset, hreset, hcand, -, -, heq⟩ :=
    registerNativeId_cases entry harnessId generation id lifecycleReset observedAt
  · rw [heq]; exact ⟨rfl, .inl rfl⟩
  · rw [heq]; exact ⟨rfl, .inl rfl⟩
  · rw [heq]
    exact ⟨rfl, .inr (.inl ⟨reset, _, hreset, rfl, rfl, rfl, rfl, .inr ⟨hcand, by simp⟩, .inl rfl⟩)⟩

theorem keeps_finishQueuedPromptWait (entry : SessionAuthority) (receiptSequence : Nat) :
    Keeps entry (finishQueuedPromptWait entry receiptSequence).1
      (.finishQueuedPromptWait receiptSequence) := by
  unfold finishQueuedPromptWait
  split
  · exact ⟨rfl, .inl rfl⟩
  · rename_i reset hreset
    split
    · exact ⟨rfl, .inl rfl⟩
    · rename_i hguard
      simp only [Bool.or_eq_true, not_or, Bool.not_eq_true', Bool.not_eq_false,
        Option.any_eq_true, beq_iff_eq] at hguard
      obtain ⟨queued, hq, hseq⟩ := hguard.2
      exact ⟨rfl, .inr (.inr ⟨⟨reset, queued, hreset, hq, hseq⟩, rfl⟩)⟩

variable {op : Op}

theorem keeps_of_quiet (hq : op.Quiet) (entry : SessionAuthority) :
    Keeps entry (op.apply entry) op := by
  cases op with
  | registerNativeId => exact keeps_registerNativeId entry ..
  | reserveReset => exact hq.elim
  | acknowledgeReset => exact hq.elim
  | completeReset => exact hq.elim
  | markResetPromptTupleClearApplied =>
    simp only [Op.apply, markResetPromptTupleClearApplied]
    split
    · exact ⟨rfl, .inl rfl⟩
    · rename_i reset hreset
      split
      · exact ⟨rfl, .inl rfl⟩
      · exact ⟨rfl, .inr (.inl ⟨reset, _, hreset, rfl, rfl, rfl, rfl, .inl rfl, .inl rfl⟩)⟩
  | noteResetSubmissionInputSequence n =>
    refine ⟨rfl, ?_⟩
    cases hreset : entry.reset with
    | none => exact .inl (by simp [Op.apply, noteResetSubmissionInputSequence, hreset])
    | some reset =>
      refine .inr (.inl ⟨reset, { reset with resetSubmissionInputSequence := some n }, rfl, ?_,
        rfl, rfl, rfl, .inl rfl, .inl rfl⟩)
      simp [Op.apply, noteResetSubmissionInputSequence, hreset]
  | deactivateForReset =>
    simp only [Op.apply, deactivateForReset]
    split <;> exact ⟨rfl, .inl rfl⟩
  | finishQueuedPromptWait => exact keeps_finishQueuedPromptWait entry _
  | queuePromptWait => exact keeps_queuePromptWait entry ..
  | cancelReset => exact hq.elim
  | activate =>
    simp only [Op.apply, activate]
    split <;> exact ⟨rfl, .inl rfl⟩
  | scheduleResetRetry =>
    simp only [Op.apply, scheduleResetRetry]
    split
    · exact ⟨rfl, .inl rfl⟩
    · split <;> exact ⟨rfl, .inl rfl⟩
  | finishResetRetry =>
    simp only [Op.apply, finishResetRetry]
    split <;> exact ⟨rfl, .inl rfl⟩
  | revoke =>
    simp only [Op.apply, revoke]
    split
    · rename_i hgen
      exact ⟨rfl, .inr (.inr ⟨hgen, rfl⟩)⟩
    · exact ⟨rfl, .inl rfl⟩

/-! ## What a call returns -/

theorem acknowledgeReset_eq (entry : SessionAuthority) :
    acknowledgeReset entry = (entry, none) ∨
    ∃ reset, entry.reset = some reset ∧
      acknowledgeReset entry =
        ({ entry with reset := some { reset with acknowledged := true } },
          some reset.candidateNativeSessionId) := by
  unfold acknowledgeReset
  split
  · exact .inl rfl
  · split
    · exact .inl rfl
    · rename_i reset hreset
      exact .inr ⟨reset, hreset, rfl⟩

/-- What a completion of the reservation reports. -/
def ResetReservation.outcome (reset : ResetReservation) : ResetCommit where
  nativeSessionId := reset.candidateNativeSessionId
  queuedPromptWait :=
    if reset.candidateNativeSessionId.isNone then none else reset.queuedPromptWait
  resetSubmissionInputSequence := reset.resetSubmissionInputSequence

/-- A completion with a candidate and no queued wait is the last one. -/
def ResetReservation.lastCompletion (reset : ResetReservation) : Bool :=
  reset.candidateNativeSessionId.isSome && reset.queuedPromptWait.isNone

variable {reset : ResetReservation}

theorem ResetReservation.commit_self (h : reset.epochCommitted = true) :
    { reset with epochCommitted := true } = reset := by
  cases reset
  cases h
  rfl

theorem completeReset_eq (entry : SessionAuthority) :
    (completeReset entry = (entry, none) ∧
      ∀ reset, entry.reset = some reset → reset.acknowledged = false) ∨
    ∃ reset after, entry.reset = some reset ∧ reset.acknowledged = true ∧
      completeReset entry = (after, some reset.outcome) ∧
      after.epoch =
        (if reset.epochCommitted then entry.epoch else saturatingSucc entry.epoch) ∧
      after.reset =
        (if reset.lastCompletion then none else some { reset with epochCommitted := true }) := by
  cases hreset : entry.reset with
  | none => exact .inl ⟨by simp [completeReset, hreset], by simp⟩
  | some reset =>
    cases hack : reset.acknowledged with
    | false =>
      refine .inl ⟨by simp [completeReset, hreset, hack], ?_⟩
      intro r hr
      cases hr
      exact hack
    | true =>
      refine .inr ⟨reset, (completeReset entry).1, rfl, hack, ?_⟩
      rcases Option.eq_none_or_eq_some reset.candidateNativeSessionId with
        hcand | ⟨candidate, hcand⟩
      · by_cases hcom : reset.epochCommitted = true
        · -- the retry of a candidate-free completion changes nothing
          rw [ResetReservation.commit_self hcom]
          simp [completeReset, hreset, hack, hcand, hcom, ResetReservation.outcome,
            ResetReservation.lastCompletion]
        · simp [completeReset, hreset, hack, hcand, hcom, ResetReservation.outcome,
            ResetReservation.lastCompletion]
      · rcases Option.eq_none_or_eq_some reset.queuedPromptWait with hq | ⟨queued, hq⟩
        · simp [completeReset, hreset, hack, hcand, hq, ResetReservation.outcome,
            ResetReservation.lastCompletion]
        · simp [completeReset, hreset, hack, hcand, hq, ResetReservation.outcome,
            ResetReservation.lastCompletion]

/-! ## Reservations and their numbers -/

/-- The calls made on one authority so far. The `n`-th accepted reservation has
the number `n`; `pending` is the number of the reservation in the entry and
`superseded` that of the one a cancel would restore. -/
structure History where
  entry : SessionAuthority
  reserved : Nat
  pending : Option Nat
  superseded : Option Nat
  acknowledged : Finset Nat
  completed : Finset Nat

def History.issued (harnessId generation : String) (native : Option String) : History where
  entry := PromptAuthority.issued harnessId generation native
  reserved := 0
  pending := none
  superseded := none
  acknowledged := ∅
  completed := ∅

/-- The history with the entry a call leaves behind; without a reset in it no
reservation is pending. -/
def History.withEntry (history : History) (entry : SessionAuthority) : History :=
  { history with
      entry := entry
      pending := if entry.reset.isSome then history.pending else none }

/-- The history after a call. A reservation counts as acknowledged or completed
when the call returned `Some`. -/
def History.after (history : History) (op : Op) : History :=
  let next := history.withEntry (op.apply history.entry)
  match op with
  | .reserveReset harnessId command now =>
    if (PromptAuthority.reserveReset history.entry harnessId command now).2 then
      { next with
          reserved := history.reserved + 1
          pending := some history.reserved
          superseded := history.pending }
    else next
  | .acknowledgeReset =>
    if (PromptAuthority.acknowledgeReset history.entry).2.isSome then
      { next with acknowledged := history.acknowledged ∪ history.pending.toFinset }
    else next
  | .completeReset =>
    if (PromptAuthority.completeReset history.entry).2.isSome then
      { next with completed := history.completed ∪ history.pending.toFinset }
    else next
  | .cancelReset =>
    { next with
        pending := if next.entry.reset.isSome then history.superseded else none
        superseded := none }
  | _ => next

/-- The history of an authority after the calls `ops`, oldest first. -/
def History.run (harnessId generation : String) (native : Option String) (ops : List Op) :
    History :=
  ops.foldl History.after (History.issued harnessId generation native)

theorem History.after_quiet (hq : op.Quiet) (history : History) :
    history.after op = history.withEntry (op.apply history.entry) := by
  cases op with
  | reserveReset => exact hq.elim
  | acknowledgeReset => exact hq.elim
  | completeReset => exact hq.elim
  | cancelReset => exact hq.elim
  | _ => rfl

/-- How the numbers describe the entry. -/
structure History.Inv (history : History) : Prop where
  pending_isSome : history.pending.isSome = history.entry.reset.isSome
  pending_lt : ∀ n, history.pending = some n → n < history.reserved
  acknowledged_lt : ∀ n ∈ history.acknowledged, n < history.reserved
  completed_acknowledged : history.completed ⊆ history.acknowledged
  acknowledged : ∀ reset n, history.entry.reset = some reset → history.pending = some n →
    (reset.acknowledged = true ↔ n ∈ history.acknowledged)
  committed : ∀ reset n, history.entry.reset = some reset → history.pending = some n →
    (reset.epochCommitted = true ↔ n ∈ history.completed)
  superseded : ∀ reset old, history.entry.reset = some reset → reset.superseded = some old →
    ∃ n, history.superseded = some n ∧ n ∈ history.completed ∧ old.acknowledged = true ∧
      old.epochCommitted = true ∧ old.queuedPromptWait = none ∧ old.superseded = none
  queued : ∀ reset, history.entry.reset = some reset → reset.queuedPromptWait ≠ none →
    reset.candidateNativeSessionId ≠ none
  epoch : history.entry.epoch = min history.completed.card (2 ^ 64 - 1)

variable (harnessId generation : String) (native : Option String)

theorem History.inv_issued : (History.issued harnessId generation native).Inv where
  pending_isSome := rfl
  pending_lt := by simp [History.issued]
  acknowledged_lt := by simp [History.issued]
  completed_acknowledged := by simp [History.issued]
  acknowledged := by simp [History.issued, PromptAuthority.issued]
  committed := by simp [History.issued, PromptAuthority.issued]
  superseded := by simp [History.issued, PromptAuthority.issued]
  queued := by simp [History.issued, PromptAuthority.issued]
  epoch := by simp [History.issued, PromptAuthority.issued]

variable {history : History}

theorem History.Inv.number (h : history.Inv) (hreset : history.entry.reset = some reset) :
    ∃ n, history.pending = some n := by
  have hsome := h.pending_isSome
  rw [hreset, Option.isSome_some] at hsome
  exact Option.isSome_iff_exists.mp hsome

/-- An entry whose reset, if any, is the old one up to what `Kept` allows keeps
the invariant. -/
theorem History.Inv.withEntry (h : history.Inv) {entry : SessionAuthority}
    (hepoch : entry.epoch = history.entry.epoch)
    (hkept : ∀ reset', entry.reset = some reset' →
      ∃ reset, history.entry.reset = some reset ∧ reset.Kept reset') :
    (history.withEntry entry).Inv where
  pending_isSome := by
    cases hreset : entry.reset with
    | none => simp [History.withEntry, hreset]
    | some reset' =>
      obtain ⟨reset, hold, -⟩ := hkept reset' hreset
      obtain ⟨n, hn⟩ := h.number hold
      simp [History.withEntry, hreset, hn]
  pending_lt := by
    intro n hn
    simp only [History.withEntry] at hn
    split at hn
    · exact h.pending_lt n hn
    · cases hn
  acknowledged_lt := h.acknowledged_lt
  completed_acknowledged := h.completed_acknowledged
  acknowledged := by
    intro reset' n hreset hn
    obtain ⟨reset, hold, hk⟩ := hkept reset' hreset
    rw [hk.acknowledged]
    refine h.acknowledged reset n hold ?_
    simpa [History.withEntry, show entry.reset = some reset' from hreset] using hn
  committed := by
    intro reset' n hreset hn
    obtain ⟨reset, hold, hk⟩ := hkept reset' hreset
    rw [hk.epochCommitted]
    refine h.committed reset n hold ?_
    simpa [History.withEntry, show entry.reset = some reset' from hreset] using hn
  superseded := by
    intro reset' old hreset hsup
    obtain ⟨reset, hold, hk⟩ := hkept reset' hreset
    exact h.superseded reset old hold (hk.superseded ▸ hsup)
  queued := by
    intro reset' hreset hq
    obtain ⟨reset, hold, hk⟩ := hkept reset' hreset
    rcases hk.queued with hsame | ⟨hcand, -⟩
    · have hcand := h.queued reset hold (hsame ▸ hq)
      rcases hk.candidate with hc | ⟨-, hc⟩
      · rw [hc]; exact hcand
      · exact hc
    · exact hcand
  epoch := hepoch.trans h.epoch

theorem History.inv_quiet (h : history.Inv) (hq : op.Quiet) : (history.after op).Inv := by
  rw [History.after_quiet hq]
  obtain ⟨hepoch, hsame | ⟨reset, reset', hold, hnew, hk⟩ | ⟨-, hnone⟩⟩ :=
    keeps_of_quiet hq history.entry
  · refine h.withEntry hepoch ?_
    intro reset' hreset
    exact ⟨reset', hsame ▸ hreset, .refl reset'⟩
  · refine h.withEntry hepoch ?_
    intro r hr
    rw [hnew, Option.some.injEq] at hr
    exact ⟨reset, hold, hr ▸ hk⟩
  · refine h.withEntry hepoch ?_
    intro r hr
    rw [hnone] at hr
    cases hr

/-- A call that leaves the entry as it is keeps the invariant. -/
theorem History.Inv.unchanged (h : history.Inv) : (history.withEntry history.entry).Inv :=
  h.withEntry rfl (fun reset' hreset => ⟨reset', hreset, .refl reset'⟩)

theorem History.inv_reserveReset (h : history.Inv) (harnessId command : String) (now : DateTime) :
    (history.after (.reserveReset harnessId command now)).Inv := by
  rcases reserveReset_eq history.entry harnessId command now with heq | ⟨-, hold, heq⟩
  · have hsame : history.after (.reserveReset harnessId command now) =
        history.withEntry history.entry := by
      simp [History.after, Op.apply, heq]
    rw [hsame]
    exact h.unchanged
  · -- the new number is above every number given before
    have hnew : history.after (.reserveReset harnessId command now) =
        { history with
            entry := { history.entry with
              reset := some (PromptAuthority.reserved history.entry now) }
            reserved := history.reserved + 1
            pending := some history.reserved
            superseded := history.pending } := by
      simp [History.after, Op.apply, heq, History.withEntry]
    have hfresh : history.reserved ∉ history.acknowledged :=
      fun hmem => lt_irrefl _ (h.acknowledged_lt _ hmem)
    rw [hnew]
    refine ⟨rfl, ?_, ?_, h.completed_acknowledged, ?_, ?_, ?_, ?_, h.epoch⟩
    · intro n hn
      cases hn
      exact Nat.lt_succ_self _
    · intro n hn
      exact Nat.lt_succ_of_lt (h.acknowledged_lt n hn)
    · intro reset n hreset hn
      cases hreset
      cases hn
      simpa [PromptAuthority.reserved] using hfresh
    · intro reset n hreset hn
      cases hreset
      cases hn
      simpa [PromptAuthority.reserved] using fun hmem => hfresh (h.completed_acknowledged hmem)
    · intro reset old hreset hsup
      cases hreset
      rcases hold with ⟨hnone, -⟩ | ⟨prev, hsome, hfree⟩
      · simp [PromptAuthority.reserved, hnone] at hsup
      · simp only [PromptAuthority.reserved, filter_candidateFree hsome hfree, Option.map_some,
          Option.some.injEq] at hsup
        subst hsup
        obtain ⟨hack, hcom, hcand⟩ := candidateFree_iff.mp hfree
        obtain ⟨n, hn⟩ := h.number hsome
        refine ⟨n, hn, (h.committed prev n hsome hn).mp hcom, hack, hcom, ?_, rfl⟩
        -- a wait is queued for a candidate only
        by_contra hq
        exact h.queued prev hsome hq hcand
    · intro reset hreset hq
      cases hreset
      exact absurd rfl hq

theorem History.inv_acknowledgeReset (h : history.Inv) : (history.after .acknowledgeReset).Inv := by
  rcases acknowledgeReset_eq history.entry with heq | ⟨reset, hreset, heq⟩
  · have hsame : history.after .acknowledgeReset = history.withEntry history.entry := by
      simp [History.after, Op.apply, heq]
    rw [hsame]
    exact h.unchanged
  · obtain ⟨n, hn⟩ := h.number hreset
    have hnew : history.after .acknowledgeReset =
        { history with
            entry := { history.entry with reset := some { reset with acknowledged := true } }
            acknowledged := history.acknowledged ∪ {n} } := by
      simp [History.after, Op.apply, heq, History.withEntry, hn]
    rw [hnew]
    refine ⟨?_, h.pending_lt, ?_, ?_, ?_, ?_, ?_, ?_, h.epoch⟩
    · simp [hn]
    · intro m hm
      rcases Finset.mem_union.mp hm with hm | hm
      · exact h.acknowledged_lt m hm
      · rw [Finset.mem_singleton.mp hm]
        exact h.pending_lt n hn
    · exact fun m hm => Finset.mem_union_left _ (h.completed_acknowledged hm)
    · intro r m hr hm
      cases hr
      have hmn : m = n := Option.some.inj (hm.symm.trans hn)
      simp [hmn]
    · intro r m hr hm
      cases hr
      exact h.committed reset m hreset hm
    · intro r old hr hsup
      cases hr
      exact h.superseded reset old hreset hsup
    · intro r hr hq
      cases hr
      exact h.queued reset hreset hq

theorem saturatingSucc_min (c : Nat) :
    saturatingSucc (min c (2 ^ 64 - 1)) = min (c + 1) (2 ^ 64 - 1) := by
  unfold saturatingSucc
  omega

theorem History.Inv.epoch_completed (h : history.Inv) {n : Nat}
    (hreset : history.entry.reset = some reset) (hn : history.pending = some n) :
    (if reset.epochCommitted then history.entry.epoch else saturatingSucc history.entry.epoch) =
      min (history.completed ∪ {n}).card (2 ^ 64 - 1) := by
  have hiff := h.committed reset n hreset hn
  rw [Finset.union_comm, ← Finset.insert_eq]
  cases hcom : reset.epochCommitted with
  | true =>
    rw [Finset.insert_eq_of_mem (hiff.mp hcom)]
    simpa using h.epoch
  | false =>
    have hnot : n ∉ history.completed := by
      intro hmem
      rw [hiff.mpr hmem] at hcom
      cases hcom
    rw [Finset.card_insert_of_notMem hnot, h.epoch, ← saturatingSucc_min]
    simp

theorem History.inv_completeReset (h : history.Inv) : (history.after .completeReset).Inv := by
  rcases completeReset_eq history.entry with
    ⟨heq, -⟩ | ⟨reset, after, hreset, hack, heq, hepoch, hreset'⟩
  · have hsame : history.after .completeReset = history.withEntry history.entry := by
      simp [History.after, Op.apply, heq]
    rw [hsame]
    exact h.unchanged
  · obtain ⟨n, hn⟩ := h.number hreset
    have hnew : history.after .completeReset =
        { history with
            entry := after
            pending := if after.reset.isSome then some n else none
            completed := history.completed ∪ {n} } := by
      simp [History.after, Op.apply, heq, History.withEntry, hn]
    have hmem : n ∈ history.acknowledged := (h.acknowledged reset n hreset hn).mp hack
    have hafter : ∀ r, after.reset = some r → r = { reset with epochCommitted := true } := by
      intro r hr
      rw [hreset'] at hr
      split at hr
      · cases hr
      · exact (Option.some.inj hr).symm
    rw [hnew]
    refine ⟨?_, ?_, h.acknowledged_lt, ?_, ?_, ?_, ?_, ?_, ?_⟩
    · cases after.reset <;> simp
    · intro m hm
      simp only at hm
      split at hm
      · cases hm
        exact h.pending_lt n hn
      · cases hm
    · refine Finset.union_subset h.completed_acknowledged ?_
      simpa using hmem
    · intro r m hr hm
      obtain rfl := hafter r hr
      simp only [show after.reset = _ from hr, Option.isSome_some, if_true, Option.some.injEq] at hm
      subst hm
      simp [hack, hmem]
    · intro r m hr hm
      obtain rfl := hafter r hr
      simp only [show after.reset = _ from hr, Option.isSome_some, if_true, Option.some.injEq] at hm
      subst hm
      simp
    · intro r old hr hsup
      obtain rfl := hafter r hr
      obtain ⟨m, hm, hcomp, hrest⟩ := h.superseded reset old hreset hsup
      exact ⟨m, hm, Finset.mem_union_left _ hcomp, hrest⟩
    · intro r hr hq
      obtain rfl := hafter r hr
      exact h.queued reset hreset hq
    · exact hepoch.trans (h.epoch_completed hreset hn)

theorem History.inv_cancelReset (h : history.Inv) : (history.after .cancelReset).Inv := by
  cases hnext : (cancelReset history.entry).reset with
  | none =>
    have hnew : history.after .cancelReset =
        { history with
            entry := cancelReset history.entry
            pending := none
            superseded := none } := by
      simp [History.after, Op.apply, History.withEntry, hnext]
    rw [hnew]
    refine ⟨by simp [hnext], by simp, h.acknowledged_lt, h.completed_acknowledged, by simp, by simp,
      ?_, ?_, h.epoch⟩
    · intro r old hr
      rw [hnext] at hr
      cases hr
    · intro r hr
      rw [hnext] at hr
      cases hr
  | some old =>
    -- the restored reservation was acknowledged and completed before it was superseded
    have hbind : history.entry.reset.bind (·.superseded) = some old := hnext
    obtain ⟨reset, hreset, hsup⟩ := Option.bind_eq_some_iff.mp hbind
    obtain ⟨n, hn, hcomp, hack, hcom, hq, hdeep⟩ := h.superseded reset old hreset hsup
    have hnew : history.after .cancelReset =
        { history with
            entry := cancelReset history.entry
            pending := some n
            superseded := none } := by
      simp [History.after, Op.apply, History.withEntry, hnext, hn]
    have hmem := h.completed_acknowledged hcomp
    rw [hnew]
    refine ⟨by simp [hnext], ?_, h.acknowledged_lt, h.completed_acknowledged, ?_, ?_, ?_, ?_,
      h.epoch⟩
    · intro m hm
      cases hm
      exact h.acknowledged_lt n hmem
    · intro r m hr hm
      cases hm
      cases hnext.symm.trans hr
      simp [hack, hmem]
    · intro r m hr hm
      cases hm
      cases hnext.symm.trans hr
      simp [hcom, hcomp]
    · intro r p hr hp
      cases hnext.symm.trans hr
      rw [hdeep] at hp
      cases hp
    · intro r hr hq'
      cases hnext.symm.trans hr
      exact absurd hq hq'

theorem History.inv_after (h : history.Inv) (op : Op) : (history.after op).Inv := by
  cases op with
  | reserveReset => exact History.inv_reserveReset h ..
  | acknowledgeReset => exact History.inv_acknowledgeReset h
  | completeReset => exact History.inv_completeReset h
  | cancelReset => exact History.inv_cancelReset h
  | _ => exact History.inv_quiet h trivial

/-- The invariant holds after every sequence of calls. -/
theorem History.inv_run (ops : List Op) : (History.run harnessId generation native ops).Inv := by
  have hfold : ∀ history : History, history.Inv → (ops.foldl History.after history).Inv := by
    induction ops with
    | nil => exact fun _ h => h
    | cons op ops ih => exact fun history h => ih _ (History.inv_after h op)
  exact hfold _ (History.inv_issued harnessId generation native)

/-! ## Sequences of calls -/

/-- No call of the sequence satisfies `P` at the entry it is made on. -/
def Never (P : SessionAuthority → Op → Prop) : SessionAuthority → List Op → Prop
  | _, [] => True
  | entry, op :: ops => ¬ P entry op ∧ Never P (op.apply entry) ops

@[simp] theorem History.after_entry (history : History) (op : Op) :
    (history.after op).entry = op.apply history.entry := by
  cases op with
  | reserveReset => simp only [History.after]; split <;> rfl
  | acknowledgeReset => simp only [History.after]; split <;> rfl
  | completeReset => simp only [History.after]; split <;> rfl
  | _ => rfl

/-! ## A queued wait stays or makes way for a later one -/

/-- The entry's queued wait is `queued` or a later one. -/
def QueuedSince (queued : QueuedPromptWait) (entry : SessionAuthority) : Prop :=
  ∃ reset current, entry.reset = some reset ∧ reset.queuedPromptWait = some current ∧
    (current = queued ∨ queued.Later current)

variable {entry : SessionAuthority} {queued : QueuedPromptWait}

theorem queuedSince_quiet (h : QueuedSince queued entry) (hq : op.Quiet)
    (hrel : ¬ op.Releases entry) : QueuedSince queued (op.apply entry) := by
  obtain ⟨reset, current, hreset, hcur, hsince⟩ := h
  obtain ⟨-, hsame | ⟨r, reset', hold, hnew, hk⟩ | ⟨hyes, -⟩⟩ := keeps_of_quiet hq entry
  · exact ⟨reset, current, hsame.trans hreset, hcur, hsince⟩
  · rw [hreset, Option.some.injEq] at hold
    subst hold
    rcases hk.queued with heq | ⟨-, next, hnext, hlater⟩
    · exact ⟨reset', current, hnew, heq.trans hcur, hsince⟩
    · refine ⟨reset', next, hnew, hnext, .inr ?_⟩
      rcases hsince with rfl | hsince
      · exact hlater _ hcur
      · exact hsince.trans (hlater _ hcur)
  · exact absurd hyes hrel

theorem queuedSince_apply (hinv : history.Inv) (h : QueuedSince queued history.entry)
    (hrel : ¬ op.Releases history.entry) : QueuedSince queued (op.apply history.entry) := by
  obtain ⟨reset, current, hreset, hcur, hsince⟩ := id h
  cases op with
  | reserveReset harnessId command now =>
    rcases reserveReset_eq history.entry harnessId command now with heq | ⟨-, hold, -⟩
    · simpa [Op.apply, heq] using h
    · -- a reservation with a queued wait has a candidate, so it is not superseded
      exfalso
      rcases hold with ⟨hnone, -⟩ | ⟨old, hsome, hfree⟩
      · rw [hreset] at hnone; cases hnone
      · rw [hreset, Option.some.injEq] at hsome
        subst hsome
        exact hinv.queued reset hreset (by simp [hcur]) (candidateFree_iff.mp hfree).2.2
  | acknowledgeReset =>
    rcases acknowledgeReset_eq history.entry with heq | ⟨r, hr, heq⟩
    · simpa [Op.apply, heq] using h
    · cases hreset.symm.trans hr
      exact ⟨{ reset with acknowledged := true }, current, by simp [Op.apply, heq], hcur, hsince⟩
  | completeReset =>
    rcases completeReset_eq history.entry with ⟨heq, -⟩ | ⟨r, after, hr, -, heq, -, hafter⟩
    · simpa [Op.apply, heq] using h
    · cases hreset.symm.trans hr
      have hmore : reset.lastCompletion = false := by
        simp [ResetReservation.lastCompletion, hcur]
      rw [hmore] at hafter
      exact ⟨{ reset with epochCommitted := true }, current, by simpa [Op.apply, heq] using hafter,
        hcur, hsince⟩
  | cancelReset => exact absurd trivial hrel
  | _ => exact queuedSince_quiet h trivial hrel

variable (later : List Op)

theorem queuedSince_foldl (hinv : history.Inv) (h : QueuedSince queued history.entry)
    (hnever : Never Op.Releases history.entry later) :
    QueuedSince queued (later.foldl Op.apply history.entry) := by
  induction later generalizing history with
  | nil => exact h
  | cons op ops ih =>
    rw [List.foldl_cons, ← History.after_entry]
    refine ih (History.inv_after hinv op) ?_ ?_
    · rw [History.after_entry]
      exact queuedSince_apply hinv h hnever.1
    · rw [History.after_entry]
      exact hnever.2

/-! ## Retries of a completion -/

/-- The calls that record something for the pending reservation that a
completion reports, supersede it or give it up. -/
def Op.Touches (entry : SessionAuthority) : Op → Prop
  | .registerNativeId harnessId generation id lifecycleReset observedAt =>
    ∃ reset, entry.reset = some reset ∧ reset.candidateNativeSessionId = none ∧
      (PromptAuthority.registerNativeId entry harnessId generation id lifecycleReset
        observedAt).2 = .held
  | .queuePromptWait harnessId generation id notificationType observedAt receipt committed cwd =>
    (PromptAuthority.queuePromptWait entry harnessId generation id notificationType observedAt
      receipt committed cwd).2 = true
  | .noteResetSubmissionInputSequence inputSequence =>
    ∃ reset, entry.reset = some reset ∧
      reset.resetSubmissionInputSequence ≠ some inputSequence
  | .reserveReset harnessId command now =>
    (PromptAuthority.reserveReset entry harnessId command now).2 = true
  | .finishQueuedPromptWait receiptSequence =>
    (PromptAuthority.finishQueuedPromptWait entry receiptSequence).2 = true
  | .cancelReset => True
  | .revoke generation => entry.generation = generation
  | _ => False

/-- A completion of the entry returns `commit`, and so does the next one. -/
def Reports (commit : ResetCommit) (entry : SessionAuthority) : Prop :=
  ∃ reset, entry.reset = some reset ∧ reset.acknowledged = true ∧
    reset.lastCompletion = false ∧ reset.outcome = commit

variable {commit : ResetCommit}

theorem Reports.completes (h : Reports commit entry) : (completeReset entry).2 = some commit := by
  obtain ⟨reset, hreset, hack, -, rfl⟩ := h
  rcases completeReset_eq entry with ⟨-, hno⟩ | ⟨r, after, hr, -, heq, -⟩
  · rw [hno reset hreset] at hack; cases hack
  · cases hreset.symm.trans hr
    rw [heq]

variable {after : SessionAuthority}

theorem Reports.unchanged (h : Reports commit entry) (hsame : after.reset = entry.reset) :
    Reports commit after := by
  obtain ⟨reset, hreset, hrest⟩ := h
  exact ⟨reset, hsame.trans hreset, hrest⟩

theorem Reports.marked (h : Reports commit entry) (reset' : ResetReservation)
    (hreset : entry.reset = some reset) (hafter : after.reset = some reset')
    (hack : reset.acknowledged = true → reset'.acknowledged = true)
    (hlast : reset'.lastCompletion = reset.lastCompletion) (hout : reset'.outcome = reset.outcome) :
    Reports commit after := by
  obtain ⟨r, hr, hra, hrl, hro⟩ := h
  cases hreset.symm.trans hr
  exact ⟨reset', hafter, hack hra, hlast.trans hrl, hout.trans hro⟩

theorem registerNativeId_not_held (hreset : entry.reset = some reset)
    {harnessId generation id : String} {lifecycleReset : Bool}
    (h : reset.candidateNativeSessionId = none →
      (registerNativeId entry harnessId generation id lifecycleReset observedAt).2 ≠ .held) :
    (registerNativeId entry harnessId generation id lifecycleReset observedAt).1.reset =
      entry.reset := by
  obtain heq | ⟨-, -, hnone, -⟩ | ⟨r, hr, hcand, -, -, heq⟩ :=
    registerNativeId_cases entry harnessId generation id lifecycleReset observedAt
  · rw [heq]
  · rw [hreset] at hnone; cases hnone
  · cases hreset.symm.trans hr
    exact absurd (by rw [heq]) (h hcand)

theorem queuePromptWait_not_queued {harnessId generation id notificationType : String}
    {receipt committed : Nat} {cwd : Option String}
    (h : (queuePromptWait entry harnessId generation id notificationType observedAt receipt
      committed cwd).2 ≠ true) :
    (queuePromptWait entry harnessId generation id notificationType observedAt receipt
      committed cwd).1 = entry := by
  unfold queuePromptWait at h ⊢
  split
  · rfl
  · split
    · rfl
    · split
      · rfl
      · split
        · simp_all
        · rfl

theorem finishQueuedPromptWait_not_finished {receiptSequence : Nat}
    (h : (finishQueuedPromptWait entry receiptSequence).2 ≠ true) :
    (finishQueuedPromptWait entry receiptSequence).1 = entry := by
  unfold finishQueuedPromptWait at h ⊢
  split
  · rfl
  · split
    · rfl
    · simp_all

theorem reports_apply (h : Reports commit entry) (htouch : ¬ op.Touches entry) :
    Reports commit (op.apply entry) := by
  obtain ⟨reset, hreset, hack, hlast, -⟩ := id h
  cases op with
  | registerNativeId harnessId generation id lifecycleReset observedAt =>
    refine h.unchanged (registerNativeId_not_held hreset ?_)
    intro hcand hheld
    exact htouch ⟨reset, hreset, hcand, hheld⟩
  | reserveReset harnessId command now =>
    rcases reserveReset_eq entry harnessId command now with heq | ⟨-, -, heq⟩
    · exact h.unchanged (by simp [Op.apply, heq])
    · exact absurd (by simp [Op.Touches, heq]) htouch
  | acknowledgeReset =>
    rcases acknowledgeReset_eq entry with heq | ⟨r, hr, heq⟩
    · exact h.unchanged (by simp [Op.apply, heq])
    · exact h.marked { r with acknowledged := true } hr (by simp [Op.apply, heq])
        (fun _ => rfl) rfl rfl
  | completeReset =>
    rcases completeReset_eq entry with ⟨heq, -⟩ | ⟨r, after, hr, -, heq, -, hafter⟩
    · exact h.unchanged (by simp [Op.apply, heq])
    · cases hreset.symm.trans hr
      rw [hlast] at hafter
      exact h.marked { reset with epochCommitted := true } hr
        (by simpa [Op.apply, heq] using hafter) (fun ha => ha) rfl rfl
  | markResetPromptTupleClearApplied =>
    refine h.marked { reset with promptTupleClearApplied := true } hreset ?_ (fun ha => ha) rfl rfl
    simp [Op.apply, markResetPromptTupleClearApplied, hreset, hack]
  | noteResetSubmissionInputSequence n =>
    -- the sequence noted is the one already recorded
    have hsame : reset.resetSubmissionInputSequence = some n := by
      by_contra hne
      exact htouch ⟨reset, hreset, hne⟩
    refine h.marked { reset with resetSubmissionInputSequence := some n } hreset
      (by simp [Op.apply, noteResetSubmissionInputSequence, hreset]) (fun ha => ha) rfl ?_
    simp [ResetReservation.outcome, hsame]
  | deactivateForReset =>
    refine h.unchanged ?_
    simp only [Op.apply, deactivateForReset]
    split <;> rfl
  | finishQueuedPromptWait =>
    exact h.unchanged (by rw [Op.apply, finishQueuedPromptWait_not_finished htouch])
  | queuePromptWait =>
    exact h.unchanged (by rw [Op.apply, queuePromptWait_not_queued htouch])
  | cancelReset => exact absurd trivial htouch
  | activate =>
    refine h.unchanged ?_
    simp only [Op.apply, activate]
    split <;> rfl
  | scheduleResetRetry =>
    refine h.unchanged ?_
    simp only [Op.apply, scheduleResetRetry]
    split
    · rfl
    · split <;> rfl
  | finishResetRetry =>
    refine h.unchanged ?_
    simp only [Op.apply, finishResetRetry]
    split <;> rfl
  | revoke generation =>
    have hgen : entry.generation ≠ generation := htouch
    exact h.unchanged (by simp [Op.apply, revoke, hgen])

theorem reports_foldl (h : Reports commit entry) (hnever : Never Op.Touches entry later) :
    Reports commit (later.foldl Op.apply entry) := by
  induction later generalizing entry with
  | nil => exact h
  | cons op ops ih => exact ih (reports_apply h hnever.1) hnever.2

theorem reports_of_completes (hc : (completeReset entry).2 = some commit)
    (hpending : commit.nativeSessionId = none ∨ commit.queuedPromptWait ≠ none) :
    Reports commit entry := by
  rcases completeReset_eq entry with ⟨heq, -⟩ | ⟨reset, after, hreset, hack, heq, -, -⟩
  · rw [heq] at hc; cases hc
  · rw [heq, Option.some.injEq] at hc
    subst hc
    refine ⟨reset, hreset, hack, ?_, rfl⟩
    cases hcand : reset.candidateNativeSessionId with
    | none => simp [ResetReservation.lastCompletion, hcand]
    | some candidate =>
      have hq : reset.queuedPromptWait ≠ none := by
        simpa [ResetReservation.outcome, hcand] using hpending
      simpa [ResetReservation.lastCompletion, hcand] using Option.isSome_iff_ne_none.mpr hq

theorem completeReset_ends (hc : (completeReset entry).2 = some commit)
    (hid : commit.nativeSessionId ≠ none) (hq : commit.queuedPromptWait = none) :
    (completeReset entry).1.reset = none := by
  rcases completeReset_eq entry with ⟨heq, -⟩ | ⟨reset, after, hreset, -, heq, -, hafter⟩
  · rw [heq] at hc; cases hc
  · rw [heq, Option.some.injEq] at hc
    subst hc
    have hcand : reset.candidateNativeSessionId ≠ none := hid
    have hnone : reset.queuedPromptWait = none := by
      simpa [ResetReservation.outcome, hcand] using hq
    rw [heq, hafter]
    simp [ResetReservation.lastCompletion, hnone, Option.isSome_iff_ne_none.mpr hcand]

/-! ## Main result -/

/-- **A reset's epoch advances exactly once.** After every sequence of calls on
an issued authority: the epoch is the number of reservations that were
acknowledged and completed, up to `u64::MAX`; a completion that leaves its
reservation pending returns the same outcome on every retry until a call records
something for the reservation, supersedes it or gives it up, and one with a
candidate and no queued wait ends it; and a queued wait is still queued, or a
later one is, after any calls none of which finishes it under its own receipt
sequence, cancels the reset or revokes the authority. -/
theorem reset_epoch_advances_once {harnessId generation : String} {native : Option String}
    {ops : List Op} {history : History}
    (hrun : History.run harnessId generation native ops = history) :
    (history.entry.epoch = min history.completed.card (2 ^ 64 - 1) ∧
      history.completed ⊆ history.acknowledged) ∧
    (∀ commit, (completeReset history.entry).2 = some commit →
      (commit.nativeSessionId = none ∨ commit.queuedPromptWait ≠ none →
        ∀ later, Never Op.Touches history.entry later →
          (completeReset (later.foldl Op.apply history.entry)).2 = some commit) ∧
      (commit.nativeSessionId ≠ none → commit.queuedPromptWait = none →
        (completeReset history.entry).1.reset = none)) ∧
    (∀ reset queued, history.entry.reset = some reset → reset.queuedPromptWait = some queued →
      ∀ later, Never Op.Releases history.entry later →
        QueuedSince queued (later.foldl Op.apply history.entry)) := by
  have hinv : history.Inv := hrun ▸ History.inv_run harnessId generation native ops
  refine ⟨⟨hinv.epoch, hinv.completed_acknowledged⟩, ?_, ?_⟩
  · intro commit hc
    refine ⟨?_, completeReset_ends hc⟩
    intro hpending later hnever
    exact (reports_foldl later (reports_of_completes hc hpending) hnever).completes
  · intro reset queued hreset hq later hnever
    exact queuedSince_foldl later hinv ⟨reset, queued, hreset, hq, .inl rfl⟩ hnever

/-- A reset whose candidate and prompt wait arrived before it was acknowledged. -/
def queuedReset : List Op :=
  [.reserveReset "claude-code" "/clear" 0,
    .registerNativeId "claude-code" "g" "new" true none,
    .queuePromptWait "claude-code" "g" "new" "permission_prompt" none 1 0 none,
    .acknowledgeReset]

/-- Completed twice, it counts once. -/
theorem retried_reset_counts_once :
    (History.run "claude-code" "g" (some "old")
      (queuedReset ++ [.completeReset, .completeReset])).entry.epoch = 1 :=
  (reset_epoch_advances_once rfl).1.1.trans (by decide)

/-- A candidate registered after a completion changes what the next one returns
and ends the reservation, and a revocation drops a queued wait that was never
finished. -/
theorem late_candidate_changes_outcome :
    (completeReset (History.run "claude-code" "g" (some "old")
      [.reserveReset "claude-code" "/clear" 0, .acknowledgeReset]).entry).2 =
        some ⟨none, none, none⟩ ∧
    (completeReset (History.run "claude-code" "g" (some "old")
      [.reserveReset "claude-code" "/clear" 0, .acknowledgeReset, .completeReset,
        .registerNativeId "claude-code" "g" "new" true none]).entry).2 =
        some ⟨some "new", none, none⟩ ∧
    (completeReset (History.run "claude-code" "g" (some "old")
      [.reserveReset "claude-code" "/clear" 0, .acknowledgeReset, .completeReset,
        .registerNativeId "claude-code" "g" "new" true none, .completeReset]).entry).2 = none ∧
    ((History.run "claude-code" "g" (some "old") queuedReset).entry.reset.bind
      (·.queuedPromptWait)).isSome = true ∧
    (History.run "claude-code" "g" (some "old")
      (queuedReset ++ [.revoke "g"])).entry.reset.isNone = true := by
  decide

end Orkworksd.PromptAuthority
