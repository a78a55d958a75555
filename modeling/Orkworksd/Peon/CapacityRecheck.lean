import Orkworksd.Lib.Run
import Orkworksd.Peon.CapacityAnalysis
import Orkworksd.Peon.HardWrap

/- Capacity rechecks over a session's output (`capacity_state.rs`, the output of the driver in
   `session_runtime.rs`, and what `project_capacity` of `session_projection.rs` writes back).

   The counters of a `CapacityState` are absolute: rows and bytes since the session began. The
   two buffers hold the end of what was pushed, and one of them holds lines, of which there are
   fewer than rows. `recheck_sound` says of every run that a recheck scans what the buffers
   still hold of the output since its origin was armed, and that an observation is written back
   only where latch and origin are those it was made with.

   The counters and the revisions of the line buffer are not bounded here: no session puts out
   2^64 bytes. The revision that guards the write-back is bounded as in the source. The other
   conditions of the write-back (the runtime's identity, its channel and fingerprint, and the
   input gate) can only keep it from happening. -/
namespace Orkworksd.Peon.CapacityAnalysis
open Lib HardWrap List

/-! ## The source -/

def u64Max : Nat := 18446744073709551615

structure RingBuffer where
  lines : List (Nat × Row)
  capacity : Nat
  nextRevision : Nat
  deriving DecidableEq, Repr

def RingBuffer.new (capacity : Nat) : RingBuffer := ⟨[], capacity, 1⟩

def RingBuffer.push (buffer : RingBuffer) (line : Row) : RingBuffer :=
  let lines := buffer.lines ++ [(buffer.nextRevision, line)]
  -- lines are taken from the front while there are too many
  { buffer with
    lines := lines.drop (lines.length - buffer.capacity), nextRevision := buffer.nextRevision + 1 }

def CapacityState.controlRevision (state : CapacityState) : Option Nat :=
  if state.analysisExhausted then none else some state.analysisRevision

def CapacityState.invalidateAnalysis (state : CapacityState) : CapacityState :=
  if state.analysisRevision < u64Max then
    { state with analysisRevision := state.analysisRevision + 1 }
  else { state with analysisExhausted := true }

/-- `pending`, the state of a session that is created. -/
def CapacityState.pending (capacityCheckPending : Bool) : CapacityState where
  atUsageLimitLatched := false
  analysisRevision := 0
  analysisExhausted := false
  capacityCheckPending := capacityCheckPending
  outputLinesSeen := 0
  scanBytesSeen := 0
  resumeScanOrigin := if capacityCheckPending then some (0, 0) else none
  pendingCapacityVisibleOnce := false

def CapacityState.recordOutput (state : CapacityState) (lines bytes : Nat) : CapacityState :=
  { state with
    outputLinesSeen := state.outputLinesSeen + lines, scanBytesSeen := state.scanBytesSeen + bytes }

def CapacityState.armRecheck (state : CapacityState) : CapacityState × Bool :=
  if state.atUsageLimitLatched = false ∨ state.capacityCheckPending = true ∨
      state.resumeScanOrigin.isSome = true then (state, false)
  else
    (CapacityState.invalidateAnalysis
      { state with resumeScanOrigin := some (state.outputLinesSeen, state.scanBytesSeen) }, true)

def CapacityState.acceptedInput (state : CapacityState) : CapacityState :=
  state.invalidateAnalysis.armRecheck.1

def CapacityState.clearLatchAndRearm (state : CapacityState) : CapacityState :=
  let state := state.invalidateAnalysis
  { state with
    atUsageLimitLatched := false
    resumeScanOrigin := some (state.outputLinesSeen, state.scanBytesSeen) }

/-- The latch and the origin that `apply_observation` sets. -/
def CapacityState.applied (state : CapacityState) (observation : CapacityObservation) :
    CapacityState :=
  let latched := state.atUsageLimitLatched || observation.atUsageLimit
  match observation.originUpdate with
  | none => { state with atUsageLimitLatched := latched }
  | some origin =>
    { state with
      resumeScanOrigin := some origin
      atUsageLimitLatched := latched && !observation.clearLatch }

def CapacityState.applyObservation (state : CapacityState) (observation : CapacityObservation) :
    CapacityState × Bool :=
  let newlyLatched := observation.atUsageLimit && !state.atUsageLimitLatched
  let applied := state.applied observation
  if (state.atUsageLimitLatched, state.resumeScanOrigin) ≠
      (applied.atUsageLimitLatched, applied.resumeScanOrigin) then
    (applied.invalidateAnalysis, newlyLatched)
  else (applied, newlyLatched)

def CapacityState.advancePendingVisibility (state : CapacityState) (hasFreshResumeOutput : Bool) :
    CapacityState × Option (Option Bool) :=
  if state.capacityCheckPending = false then (state, none)
  else if state.pendingCapacityVisibleOnce then
    ({ state.invalidateAnalysis with
        capacityCheckPending := false, resumeScanOrigin := none
        pendingCapacityVisibleOnce := false }, some none)
  else if hasFreshResumeOutput then
    ({ state.invalidateAnalysis with
        pendingCapacityVisibleOnce := true, resumeScanOrigin := none }, some (some true))
  else (state, some (some true))

structure SessionHandle where
  capacity : CapacityState
  pendingWrapPrefix : Option Row
  outputBuffer : RingBuffer
  scanBuf : List Char
  deriving DecidableEq, Repr

def maxScan : Nat := 8192

/-- `DriverEvent::Output`: the rows that are whole, trimmed, and the text of the chunk. -/
def SessionHandle.output (handle : SessionHandle) (rows : List Row) (text : List Char)
    (lastCols : Nat) : Option SessionHandle :=
  let reassembled := rejoinHardWrappedRowsStreaming handle.pendingWrapPrefix rows lastCols
  (UsageScan.truncateUsageScanBuffer (handle.scanBuf ++ text) maxScan).map (fun scanBuf =>
    { capacity := handle.capacity.recordOutput rows.length (UsageScan.byteLength text)
      pendingWrapPrefix := reassembled.2
      outputBuffer := reassembled.1.foldl RingBuffer.push handle.outputBuffer
      scanBuf := scanBuf })

/-- The row that the driver is left with when the child has exited. -/
def SessionHandle.trailing (handle : SessionHandle) (row : Row) (lastCols : Nat) : SessionHandle :=
  let reassembled := rejoinHardWrappedRowsStreaming handle.pendingWrapPrefix [row] lastCols
  { handle with
    capacity := handle.capacity.recordOutput 1 0
    pendingWrapPrefix := reassembled.2
    outputBuffer := reassembled.1.foldl RingBuffer.push handle.outputBuffer }

/-- What was captured of a session, with what was observed on it. -/
structure Candidate where
  state : CapacityState
  observation : Option CapacityObservation
  deriving DecidableEq, Repr

/-- One captured session: there is no scan where no patterns are configured. -/
def SessionHandle.capture (handle : SessionHandle)
    (scan : Option (Nat → List Char → Evidence)) : Candidate :=
  ⟨handle.capacity, scan.map (fun scan =>
    (handle.capacity.observeWith handle.outputBuffer.lines.length handle.scanBuf
      (fun start raw => (scan start raw, ()))).1)⟩

/-- The control revision is that of the capture. -/
def Candidate.current (candidate : Candidate) (capacity : CapacityState) : Bool :=
  capacity.controlRevision.isSome && capacity.controlRevision == candidate.state.controlRevision

/-- What `project_capacity` writes back. -/
def Candidate.writeBack (candidate : Candidate) (ownCapped : Bool) (capacity : CapacityState) :
    CapacityState :=
  let final : CapacityObservation :=
    { atUsageLimit := (candidate.observation.map CapacityObservation.atUsageLimit).getD ownCapped
      resetHint := none
      originUpdate := candidate.observation.bind CapacityObservation.originUpdate
      clearLatch := candidate.observation.any CapacityObservation.clearLatch }
  let hasFreshResumeOutput := candidate.state.capacityCheckPending &&
    !candidate.state.pendingCapacityVisibleOnce && candidate.state.freshOutputSinceOrigin
  ((capacity.applyObservation final).1.advancePendingVisibility hasFreshResumeOutput).1

/-! ## A session's run -/

inductive Event where
  | output (rows : List Row) (text : List Char) (lastCols : Nat)
  | trailing (row : Row) (lastCols : Nat)
  | acceptedInput
  | clearLatchAndRearm
  | capture (scan : Option (Nat → List Char → Evidence))
  | project (candidate : Nat) (ownCapped : Bool)

/-- A session, what was captured of it, all the text that it has put out and all the lines
that were pushed. -/
structure World where
  handle : SessionHandle
  candidates : List Candidate
  received : List Char
  pushed : List Row

/-- A session that is created or resumed. -/
def World.start (maxLines : Nat) (capacityCheckPending : Bool) : World :=
  ⟨⟨.pending capacityCheckPending, none, .new maxLines, []⟩, [], [], []⟩

def World.step (w : World) : Event → Option World
  | .output rows text lastCols =>
    (w.handle.output rows text lastCols).map (fun handle =>
      { w with
        handle
        received := w.received ++ text
        pushed := w.pushed ++
          (rejoinHardWrappedRowsStreaming w.handle.pendingWrapPrefix rows lastCols).1 })
  | .trailing row lastCols =>
    some { w with
      handle := w.handle.trailing row lastCols
      pushed := w.pushed ++
        (rejoinHardWrappedRowsStreaming w.handle.pendingWrapPrefix [row] lastCols).1 }
  | .acceptedInput =>
    some { w with handle := { w.handle with capacity := w.handle.capacity.acceptedInput } }
  | .clearLatchAndRearm =>
    some { w with handle := { w.handle with capacity := w.handle.capacity.clearLatchAndRearm } }
  | .capture scan => some { w with candidates := w.candidates ++ [w.handle.capture scan] }
  | .project candidate ownCapped =>
    (w.candidates[candidate]?).map (fun candidate =>
      if candidate.current w.handle.capacity then
        { w with
          handle := { w.handle with
            capacity := candidate.writeBack ownCapped w.handle.capacity } }
      else w)

def Steps (w : World) (event : Event) (w' : World) : Prop := w.step event = some w'

/-! ## The revision guards latch and origin -/

/-- `t` comes after `s`: while the revision is not exhausted, latch and origin are changed
only with it. -/
structure Controls (s t : CapacityState) : Prop where
  revision : s.analysisRevision ≤ t.analysisRevision
  unchanged : t.analysisExhausted = false → s.analysisExhausted = false ∧
    (t.analysisRevision = s.analysisRevision →
      t.atUsageLimitLatched = s.atUsageLimitLatched ∧ t.resumeScanOrigin = s.resumeScanOrigin)

namespace Controls
variable {s t u : CapacityState}

theorem refl (s : CapacityState) : Controls s s :=
  ⟨Nat.le_refl _, fun h => ⟨h, fun _ => ⟨rfl, rfl⟩⟩⟩

theorem trans (h : Controls s t) (k : Controls t u) : Controls s u := by
  refine ⟨Nat.le_trans h.revision k.revision, fun hu => ?_⟩
  obtain ⟨ht, hlater⟩ := k.unchanged hu
  obtain ⟨hs, hearlier⟩ := h.unchanged ht
  refine ⟨hs, fun heq => ?_⟩
  have hle := h.revision
  have hle' := k.revision
  obtain ⟨hlatched, horigin⟩ := hlater (by omega)
  obtain ⟨hlatched', horigin'⟩ := hearlier (by omega)
  exact ⟨hlatched.trans hlatched', horigin.trans horigin'⟩

theorem of_invalidate
    (hrevision : t.analysisRevision = s.invalidateAnalysis.analysisRevision)
    (hexhausted : t.analysisExhausted = s.invalidateAnalysis.analysisExhausted) :
    Controls s t := by
  rw [CapacityState.invalidateAnalysis] at hrevision hexhausted
  by_cases hroom : s.analysisRevision < u64Max
  · rw [if_pos hroom] at hrevision hexhausted
    have hmore : s.analysisRevision + 1 ≠ s.analysisRevision := Nat.succ_ne_self _
    refine ⟨hrevision ▸ Nat.le_succ _, fun h => ⟨hexhausted.symm.trans h, fun heq => ?_⟩⟩
    exact absurd (hrevision.symm.trans heq) hmore
  · rw [if_neg hroom] at hrevision hexhausted
    refine ⟨Nat.le_of_eq hrevision.symm, fun h => ?_⟩
    exact Bool.noConfusion (hexhausted.symm.trans h)

theorem invalidate (s : CapacityState) : Controls s s.invalidateAnalysis := of_invalidate rfl rfl

theorem of_changed (hrevision : t.analysisRevision = s.analysisRevision)
    (hexhausted : t.analysisExhausted = s.analysisExhausted) :
    Controls s t.invalidateAnalysis := by
  refine of_invalidate ?_ ?_
  · simp only [CapacityState.invalidateAnalysis, hrevision]
    split <;> simp only
  · simp only [CapacityState.invalidateAnalysis, hrevision]
    split
    · exact hexhausted
    · rfl

section
variable (s : CapacityState)

theorem recordOutput (lines bytes : Nat) :
    Controls s (s.recordOutput lines bytes) := ⟨Nat.le_refl _, fun h => ⟨h, fun _ => ⟨rfl, rfl⟩⟩⟩

theorem armRecheck : Controls s s.armRecheck.1 := by
  rw [CapacityState.armRecheck]
  split
  · exact refl s
  · exact of_changed rfl rfl

theorem acceptedInput : Controls s s.acceptedInput :=
  (invalidate s).trans (armRecheck _)

theorem clearLatchAndRearm : Controls s s.clearLatchAndRearm :=
  of_invalidate rfl rfl

theorem applyObservation (observation : CapacityObservation) :
    Controls s (s.applyObservation observation).1 := by
  have hrevision : (s.applied observation).analysisRevision = s.analysisRevision := by
    unfold CapacityState.applied
    split <;> rfl
  have hexhausted : (s.applied observation).analysisExhausted = s.analysisExhausted := by
    unfold CapacityState.applied
    split <;> rfl
  rw [CapacityState.applyObservation]
  by_cases hsame : (s.atUsageLimitLatched, s.resumeScanOrigin) =
      ((s.applied observation).atUsageLimitLatched, (s.applied observation).resumeScanOrigin)
  · rw [if_neg (not_not.mpr hsame)]
    obtain ⟨hlatched, horigin⟩ := Prod.mk.inj hsame
    exact ⟨Nat.le_of_eq hrevision.symm,
      fun h => ⟨hexhausted.symm.trans h, fun _ => ⟨hlatched.symm, horigin.symm⟩⟩⟩
  · rw [if_pos hsame]
    exact of_changed hrevision hexhausted

theorem advancePendingVisibility (hasFresh : Bool) :
    Controls s (s.advancePendingVisibility hasFresh).1 := by
  rw [CapacityState.advancePendingVisibility]
  split
  · exact refl s
  split
  · exact of_invalidate rfl rfl
  split
  · exact of_invalidate rfl rfl
  · exact refl s

end

theorem writeBack (candidate : Candidate) (ownCapped : Bool) (s : CapacityState) :
    Controls s (candidate.writeBack ownCapped s) :=
  (applyObservation s _).trans (advancePendingVisibility _ _)

theorem step {w w' : World} {event : Event} (h : Steps w event w') :
    Controls w.handle.capacity w'.handle.capacity := by
  cases event with
  | output rows text lastCols =>
    obtain ⟨handle, hhandle, rfl⟩ := Option.map_eq_some_iff.mp h
    obtain ⟨scanBuf, -, rfl⟩ := Option.map_eq_some_iff.mp hhandle
    exact recordOutput _ _ _
  | trailing row lastCols =>
    cases h
    exact recordOutput _ _ _
  | acceptedInput =>
    cases h
    exact acceptedInput _
  | clearLatchAndRearm =>
    cases h
    exact clearLatchAndRearm _
  | capture scan =>
    cases h
    exact refl _
  | project candidate ownCapped =>
    obtain ⟨candidate, -, rfl⟩ := Option.map_eq_some_iff.mp h
    split
    · exact writeBack _ _ _
    · exact refl _

theorem same (h : Controls s t) (hrevision : t.controlRevision = s.controlRevision)
    (hsome : t.controlRevision.isSome = true) :
    t.atUsageLimitLatched = s.atUsageLimitLatched ∧ t.resumeScanOrigin = s.resumeScanOrigin := by
  cases hexhausted : t.analysisExhausted with
  | true =>
    rw [CapacityState.controlRevision, hexhausted] at hsome
    cases hsome
  | false =>
    obtain ⟨hs, hsame⟩ := h.unchanged hexhausted
    rw [CapacityState.controlRevision, CapacityState.controlRevision, hexhausted, hs] at hrevision
    exact hsame (Option.some.inj hrevision)

end Controls

/-! ## Counters and buffers -/

/-- What the counters count up to: rows and bytes. -/
def CapacityState.position (state : CapacityState) : Nat × Nat :=
  (state.outputLinesSeen, state.scanBytesSeen)

def World.position (w : World) : Nat × Nat := w.handle.capacity.position

section position
variable (s : CapacityState)

@[simp] theorem position_invalidate : s.invalidateAnalysis.position = s.position := by
  rw [CapacityState.invalidateAnalysis]
  split <;> rfl

@[simp] theorem position_armRecheck : s.armRecheck.1.position = s.position := by
  rw [CapacityState.armRecheck]
  split
  · rfl
  · exact position_invalidate _

@[simp] theorem position_acceptedInput : s.acceptedInput.position = s.position := by
  rw [CapacityState.acceptedInput, position_armRecheck, position_invalidate]

@[simp] theorem position_clearLatchAndRearm : s.clearLatchAndRearm.position = s.position :=
  position_invalidate s

@[simp] theorem position_applyObservation (observation : CapacityObservation) :
    (s.applyObservation observation).1.position = s.position := by
  have happlied : (s.applied observation).position = s.position := by
    unfold CapacityState.applied
    split <;> rfl
  rw [CapacityState.applyObservation]
  split
  · rw [position_invalidate, happlied]
  · exact happlied

@[simp] theorem position_advancePendingVisibility (hasFresh : Bool) :
    (s.advancePendingVisibility hasFresh).1.position = s.position := by
  rw [CapacityState.advancePendingVisibility]
  split
  · rfl
  split
  · exact position_invalidate s
  split
  · exact position_invalidate s
  · rfl

@[simp] theorem position_writeBack (candidate : Candidate) (ownCapped : Bool) :
    (candidate.writeBack ownCapped s).position = s.position := by
  rw [Candidate.writeBack, position_advancePendingVisibility, position_applyObservation]

end position

/-- A batch gives no more lines than it has rows: a held prefix is not given without a row. -/
theorem length_rejoin (pending : Option Row) (rows : List Row) (cols : Nat) :
    (rejoinHardWrappedRowsStreaming pending rows cols).1.length ≤ rows.length := by
  have hpush (chain : Chain) (row : Row) :
      (chain.push cols row).finish.1.length ≤ chain.finish.1.length + 1 := by
    by_cases hrow : row = []
    · rw [hrow, Chain.push_nil]
      exact Nat.le_succ _
    · obtain ⟨result, current, full⟩ := chain
      cases current with
      | none =>
        simp only [Chain.push, if_neg hrow, Chain.finish]
        split <;> simp
      | some previous =>
        cases full with
        | true =>
          simp only [Chain.push, if_neg hrow, if_true, Chain.finish]
          split <;> simp
        | false =>
          simp only [Chain.push, if_neg hrow, Bool.false_eq_true, if_false, Chain.finish]
          split <;> simp
  have hrows (chain : Chain) : (rows.foldl (Chain.push cols) chain).finish.1.length ≤
      chain.finish.1.length + rows.length := by
    induction rows generalizing chain with
    | nil => exact Nat.le_refl _
    | cons row rows ih =>
      have hfirst := hpush chain row
      have hrest := ih (chain.push cols row)
      rw [foldl_cons, length_cons]
      omega
  rw [rejoinHardWrappedRowsStreaming]
  split
  · exact Nat.le_refl _
  · have hbegin : (Chain.begin pending).finish.1.length = 0 := by cases pending <;> rfl
    have hall := hrows (.begin pending)
    omega

variable {pushed : List Row} {buffer : RingBuffer}

theorem push_suffix (h : buffer.lines.map Prod.snd <:+ pushed) (line : Row) :
    (buffer.push line).lines.map Prod.snd <:+ pushed ++ [line] := by
  refine List.IsSuffix.trans ?_ (suffix_append_self_iff.mpr h)
  show ((buffer.lines ++ [(buffer.nextRevision, line)]).drop _).map Prod.snd <:+ _
  rw [map_drop, map_append]
  exact drop_suffix _ _

theorem foldl_push_suffix (lines : List Row) (h : buffer.lines.map Prod.snd <:+ pushed) :
    (lines.foldl RingBuffer.push buffer).lines.map Prod.snd <:+ pushed ++ lines := by
  induction lines generalizing buffer pushed with
  | nil =>
    rw [append_nil]
    exact h
  | cons line lines ih =>
    have hfirst := ih (push_suffix h line)
    rw [append_assoc] at hfirst
    exact hfirst

theorem truncate_suffix {text kept : List Char}
    (h : UsageScan.truncateUsageScanBuffer text maxScan = some kept) : kept <:+ text := by
  rw [UsageScan.truncateUsageScanBuffer] at h
  split at h
  · rw [Option.some.inj h]
  split at h
  · rw [← Option.some.inj h]
    exact nil_suffix
  · obtain ⟨drop, -, hfrom⟩ := Option.bind_eq_some_iff.mp h
    obtain ⟨dropped, htext, -⟩ := UsageScan.textFrom_some hfrom
    exact ⟨dropped, htext.symm⟩

theorem output_isSome (handle : SessionHandle) (rows : List Row) (text : List Char)
    (lastCols : Nat) : (handle.output rows text lastCols).isSome = true := by
  rw [SessionHandle.output, Option.isSome_map]
  by_cases hshort : UsageScan.byteLength (handle.scanBuf ++ text) ≤ maxScan
  · rw [UsageScan.truncateUsageScanBuffer, if_pos hshort]
    rfl
  · have hlimit : UsageScan.maxIncompleteAnsiBytes ≤ maxScan := by decide
    obtain ⟨-, -, -, kept, -, -, -, -, hkept, -⟩ :=
      UsageScan.truncate_spec hlimit (Nat.lt_of_not_le hshort)
    rw [hkept]
    rfl

/-- What a step does to counters and buffers: it takes in some rows, a text and no more lines
than rows. -/
structure Ingests (w w' : World) (rows : Nat) (text : List Char) (lines : List Row) : Prop where
  fewer : lines.length ≤ rows
  received : w'.received = w.received ++ text
  pushed : w'.pushed = w.pushed ++ lines
  counted : w'.handle.capacity.position =
    (w.handle.capacity.outputLinesSeen + rows,
      w.handle.capacity.scanBytesSeen + UsageScan.byteLength text)
  buffer : w'.handle.outputBuffer = lines.foldl RingBuffer.push w.handle.outputBuffer
  scanned : w'.handle.scanBuf <:+ w.handle.scanBuf ++ text

variable {w w' : World}

theorem Ingests.nothing (hreceived : w'.received = w.received) (hpushed : w'.pushed = w.pushed)
    (hcounted : w'.handle.capacity.position = w.handle.capacity.position)
    (hbuffer : w'.handle.outputBuffer = w.handle.outputBuffer)
    (hscanned : w'.handle.scanBuf = w.handle.scanBuf) : Ingests w w' 0 [] [] :=
  ⟨Nat.le_refl 0, by rw [hreceived, append_nil], by rw [hpushed, append_nil], hcounted,
    hbuffer, by rw [hscanned, append_nil]⟩

variable {event : Event}

theorem ingests (h : Steps w event w') : ∃ rows text lines, Ingests w w' rows text lines := by
  cases event with
  | output rows text lastCols =>
    obtain ⟨handle, hhandle, rfl⟩ := Option.map_eq_some_iff.mp h
    obtain ⟨scanBuf, hscan, rfl⟩ := Option.map_eq_some_iff.mp hhandle
    exact ⟨rows.length, text, _, length_rejoin _ _ _, rfl, rfl, rfl, rfl, truncate_suffix hscan⟩
  | trailing row lastCols =>
    cases h
    exact ⟨1, [], _, length_rejoin _ _ _, (append_nil _).symm, rfl, rfl, rfl,
      by rw [append_nil]; exact suffix_refl _⟩
  | acceptedInput =>
    cases h
    exact ⟨0, [], [], .nothing rfl rfl (position_acceptedInput _) rfl rfl⟩
  | clearLatchAndRearm =>
    cases h
    exact ⟨0, [], [], .nothing rfl rfl (position_clearLatchAndRearm _) rfl rfl⟩
  | capture scan =>
    cases h
    exact ⟨0, [], [], .nothing rfl rfl rfl rfl rfl⟩
  | project candidate ownCapped =>
    obtain ⟨candidate, -, rfl⟩ := Option.map_eq_some_iff.mp h
    split
    · exact ⟨0, [], [], .nothing rfl rfl (position_writeBack _ _ _) rfl rfl⟩
    · exact ⟨0, [], [], .nothing rfl rfl rfl rfl rfl⟩

/-- The counters count what was taken in, and the buffers hold its end. -/
structure Sound (w : World) : Prop where
  bytes : w.handle.capacity.scanBytesSeen = UsageScan.byteLength w.received
  rows : w.pushed.length ≤ w.handle.capacity.outputLinesSeen
  scanned : w.handle.scanBuf <:+ w.received
  lines : w.handle.outputBuffer.lines.map Prod.snd <:+ w.pushed

theorem Sound.start (maxLines : Nat) (capacityCheckPending : Bool) :
    Sound (.start maxLines capacityCheckPending) :=
  ⟨rfl, Nat.le_refl 0, suffix_refl _, suffix_refl _⟩

theorem Sound.step (h : Sound w) (hstep : Steps w event w') : Sound w' := by
  obtain ⟨rows, text, lines, hin⟩ := ingests hstep
  obtain ⟨hseen, hbytes⟩ := Prod.mk.inj hin.counted
  have hrows := h.rows
  have hfewer := hin.fewer
  constructor
  · rw [hbytes, hin.received, UsageScan.byteLength_append, h.bytes]
  · rw [hseen, hin.pushed, length_append]
    omega
  · rw [hin.received]
    exact hin.scanned.trans (suffix_append_self_iff.mpr h.scanned)
  · rw [hin.pushed, hin.buffer]
    exact foldl_push_suffix lines h.lines

/-- `w` is a later state than `m`: since `m` no more lines were pushed than rows counted. -/
structure Later (m w : World) : Prop where
  received : m.received <+: w.received
  pushed : m.pushed <+: w.pushed
  fewer : w.pushed.length + m.handle.capacity.outputLinesSeen ≤
    m.pushed.length + w.handle.capacity.outputLinesSeen

theorem Later.refl (w : World) : Later w w :=
  ⟨prefix_refl _, prefix_refl _, Nat.le_refl _⟩

variable {m : World}

theorem Later.step (h : Later m w) (hstep : Steps w event w') : Later m w' := by
  obtain ⟨rows, text, lines, hin⟩ := ingests hstep
  obtain ⟨hseen, -⟩ := Prod.mk.inj hin.counted
  have hfewer := h.fewer
  have hlines := hin.fewer
  constructor
  · rw [hin.received]
    exact h.received.trans (prefix_append _ _)
  · rw [hin.pushed]
    exact h.pushed.trans (prefix_append _ _)
  · rw [hin.pushed, hseen, length_append]
    omega

/-- What a recheck is given at `w` where its origin was armed at `m`: the output that the raw
buffer still holds, from `m` or from the beginning of the buffer on, and every line that was
pushed after `m` and that the line buffer still holds. -/
def Scans (m w : World) : Prop :=
  let held := w.handle.outputBuffer.lines.length
  let window := w.handle.capacity.window held w.handle.scanBuf
  w.handle.scanBuf <:+ w.received ∧
    window.2 =
      w.received.drop (max (w.received.length - w.handle.scanBuf.length) m.received.length) ∧
    w.handle.outputBuffer.lines.map Prod.snd <:+ w.pushed ∧ window.1 ≤ held ∧
    ∀ i < held, m.pushed.length ≤ w.pushed.length - held + i → window.1 ≤ i

theorem Later.scans (h : Later m w) (hm : Sound m) (hw : Sound w)
    (hscoped : (w.handle.capacity.staleRecheck || w.handle.capacity.baseline) = true)
    (horigin : w.handle.capacity.resumeScanOrigin = some m.position) : Scans m w := by
  have hheld : w.handle.outputBuffer.lines.length ≤ w.pushed.length := by
    have hle := hw.lines.length_le
    rwa [length_map] at hle
  have hwindow : w.handle.capacity.window w.handle.outputBuffer.lines.length w.handle.scanBuf =
      (min (m.handle.capacity.outputLinesSeen -
          (w.handle.capacity.outputLinesSeen - w.handle.outputBuffer.lines.length))
        w.handle.outputBuffer.lines.length,
      (UsageScan.textFrom (min (m.handle.capacity.scanBytesSeen -
          (w.handle.capacity.scanBytesSeen - UsageScan.byteLength w.handle.scanBuf))
        (UsageScan.byteLength w.handle.scanBuf)) w.handle.scanBuf).getD []) := by
    rw [CapacityState.window, if_pos hscoped, horigin]
    rfl
  refine ⟨hw.scanned, ?_, hw.lines, ?_, fun i hi hafter => ?_⟩
  · rw [hwindow]
    obtain ⟨dropped, hdropped⟩ := hw.scanned
    obtain ⟨fresh, hfresh⟩ := h.received
    have hseen : w.handle.capacity.scanBytesSeen -
        UsageScan.byteLength w.handle.scanBuf = UsageScan.byteLength dropped := by
      rw [hw.bytes, ← hdropped, UsageScan.byteLength_append, Nat.add_sub_cancel]
    have hskipped : w.received.length - w.handle.scanBuf.length = dropped.length := by
      rw [← hdropped, length_append, Nat.add_sub_cancel]
    rw [hseen, hskipped, hm.bytes]
    show (UsageScan.textFrom _ _).getD [] = _
    by_cases hwhich : m.received.length ≤ dropped.length
    · -- the buffer begins after the origin: all of it is scanned
      obtain ⟨between, hbetween⟩ : m.received <+: dropped :=
        prefix_of_prefix_length_le h.received ⟨_, hdropped⟩ hwhich
      have hzero : UsageScan.byteLength m.received - UsageScan.byteLength dropped = 0 := by
        rw [← hbetween, UsageScan.byteLength_append]
        omega
      have hwhole : UsageScan.textFrom 0 w.handle.scanBuf = some w.handle.scanBuf :=
        UsageScan.textFrom_append [] _
      rw [hzero, Nat.zero_min, Nat.max_eq_left hwhich, ← hdropped, drop_left, hwhole]
      rfl
    · -- the origin is inside the buffer
      have hle : dropped.length ≤ m.received.length := Nat.le_of_not_le hwhich
      obtain ⟨stale, hstale⟩ : dropped <+: m.received :=
        prefix_of_prefix_length_le ⟨_, hdropped⟩ h.received hle
      have hbuf : w.handle.scanBuf = stale ++ fresh := by
        rw [← hstale, append_assoc, ← hdropped] at hfresh
        exact (append_cancel_left hfresh).symm
      have hstart : UsageScan.byteLength m.received - UsageScan.byteLength dropped =
          UsageScan.byteLength stale := by
        rw [← hstale, UsageScan.byteLength_append, Nat.add_sub_cancel_left]
      have hin : UsageScan.byteLength stale ≤ UsageScan.byteLength (stale ++ fresh) := by
        rw [UsageScan.byteLength_append]
        exact Nat.le_add_right _ _
      rw [hstart, hbuf, Nat.min_eq_left hin, UsageScan.textFrom_append, Nat.max_eq_right hle,
        ← hfresh, drop_left]
      rfl
  · rw [hwindow]
    exact Nat.min_le_right _ _
  · rw [hwindow]
    have hfewer := h.fewer
    have hrows := hw.rows
    show min _ _ ≤ i
    omega

/-! ## Origins are moments of the run -/

variable {candidate : Candidate}

section origin
variable {s : CapacityState} {origin : Nat × Nat}

theorem origin_invalidate (s : CapacityState) :
    s.invalidateAnalysis.resumeScanOrigin = s.resumeScanOrigin := by
  rw [CapacityState.invalidateAnalysis]
  split <;> rfl

theorem origin_armRecheck (h : s.armRecheck.1.resumeScanOrigin = some origin) :
    s.resumeScanOrigin = some origin ∨ s.position = origin := by
  rw [CapacityState.armRecheck] at h
  split at h
  · exact .inl h
  · rw [origin_invalidate] at h
    exact .inr (Option.some.inj h)

theorem origin_acceptedInput (h : s.acceptedInput.resumeScanOrigin = some origin) :
    s.resumeScanOrigin = some origin ∨ s.position = origin := by
  have harm := origin_armRecheck h
  rwa [origin_invalidate, position_invalidate] at harm

theorem origin_applyObservation {observation : CapacityObservation}
    (h : (s.applyObservation observation).1.resumeScanOrigin = some origin) :
    s.resumeScanOrigin = some origin ∨ observation.originUpdate = some origin := by
  have happlied : (s.applied observation).resumeScanOrigin = some origin := by
    rw [CapacityState.applyObservation] at h
    split at h
    · rwa [origin_invalidate] at h
    · exact h
  unfold CapacityState.applied at happlied
  split at happlied
  · exact .inl happlied
  · next hupdate => exact .inr (hupdate.trans happlied)

theorem origin_advancePendingVisibility {hasFresh : Bool}
    (h : (s.advancePendingVisibility hasFresh).1.resumeScanOrigin = some origin) :
    s.resumeScanOrigin = some origin := by
  rw [CapacityState.advancePendingVisibility] at h
  split at h
  · exact h
  split at h
  · cases h
  split at h
  · cases h
  · exact h

def Candidate.originUpdate (candidate : Candidate) : Option (Nat × Nat) :=
  candidate.observation.bind CapacityObservation.originUpdate

theorem origin_writeBack {ownCapped : Bool}
    (h : (candidate.writeBack ownCapped s).resumeScanOrigin = some origin) :
    s.resumeScanOrigin = some origin ∨ candidate.originUpdate = some origin :=
  origin_applyObservation (origin_advancePendingVisibility h)

theorem originUpdate_capture {handle : SessionHandle}
    {scan : Option (Nat → List Char → Evidence)}
    (h : (handle.capture scan).originUpdate = some origin) : handle.capacity.position = origin := by
  cases scan with
  | none => cases h
  | some scan =>
    change ite _ _ _ = _ at h
    split at h
    · exact Option.some.inj h
    · cases h

end origin

theorem origin_step (h : Steps w event w') {origin : Nat × Nat}
    (horigin : w'.handle.capacity.resumeScanOrigin = some origin) :
    w.handle.capacity.resumeScanOrigin = some origin ∨ w.position = origin ∨
      ∃ candidate ∈ w.candidates, candidate.originUpdate = some origin := by
  cases event with
  | output rows text lastCols =>
    obtain ⟨handle, hhandle, rfl⟩ := Option.map_eq_some_iff.mp h
    obtain ⟨scanBuf, -, rfl⟩ := Option.map_eq_some_iff.mp hhandle
    exact .inl horigin
  | trailing row lastCols =>
    cases h
    exact .inl horigin
  | acceptedInput =>
    cases h
    exact (origin_acceptedInput horigin).imp id .inl
  | clearLatchAndRearm =>
    cases h
    exact .inr (.inl ((position_invalidate _).symm.trans (Option.some.inj horigin)))
  | capture scan =>
    cases h
    exact .inl horigin
  | project index ownCapped =>
    obtain ⟨candidate, hcandidate, rfl⟩ := Option.map_eq_some_iff.mp h
    split at horigin
    · exact (origin_writeBack horigin).imp id
        (fun hupdate => .inr ⟨candidate, mem_of_getElem? hcandidate, hupdate⟩)
    · exact .inl horigin

theorem candidate_step (h : Steps w event w') (hin : candidate ∈ w'.candidates) :
    candidate ∈ w.candidates ∨ ∃ scan, candidate = w.handle.capture scan := by
  cases event with
  | output rows text lastCols =>
    obtain ⟨handle, -, rfl⟩ := Option.map_eq_some_iff.mp h
    exact .inl hin
  | trailing row lastCols =>
    cases h
    exact .inl hin
  | acceptedInput =>
    cases h
    exact .inl hin
  | clearLatchAndRearm =>
    cases h
    exact .inl hin
  | capture scan =>
    cases h
    exact (mem_append.mp hin).imp id (fun hnew => ⟨scan, mem_singleton.mp hnew⟩)
  | project index ownCapped =>
    obtain ⟨found, -, rfl⟩ := Option.map_eq_some_iff.mp h
    split at hin
    · exact .inl hin
    · exact .inl hin

/-- The counters were at `origin` at some moment of the run. -/
def Moment (init : World) (events : List Event) (w : World) (origin : Nat × Nat) : Prop :=
  ∃ later earlier m, events = later ++ earlier ∧ Run Steps init earlier m ∧
    Run Steps m later w ∧ m.position = origin

variable {init : World} {events : List Event}

theorem Moment.here (h : Run Steps init events w) : Moment init events w w.position :=
  ⟨[], events, w, rfl, h, .start, rfl⟩

theorem Moment.step {origin : Nat × Nat} (h : Moment init events w origin)
    (hstep : Steps w event w') : Moment init (event :: events) w' origin := by
  obtain ⟨later, earlier, m, hevents, hearlier, hlater, hposition⟩ := h
  exact ⟨event :: later, earlier, m, by rw [hevents, cons_append], hearlier,
    hlater.next hstep, hposition⟩

/-- The origin, and the counters that a candidate was captured at, are moments of the run; and
the candidate's state comes before the session's. -/
structure Timed (init : World) (events : List Event) (w : World) : Prop where
  origin : ∀ origin, w.handle.capacity.resumeScanOrigin = some origin → Moment init events w origin
  captured : ∀ candidate ∈ w.candidates, Controls candidate.state w.handle.capacity ∧
    ∀ origin, candidate.originUpdate = some origin → Moment init events w origin

theorem Timed.step (hrun : Run Steps init events w) (h : Timed init events w)
    (hstep : Steps w event w') :
    Timed init (event :: events) w' := by
  have hnow : Moment init (event :: events) w' w.position := (Moment.here hrun).step hstep
  constructor
  · intro origin horigin
    obtain hkept | hposition | ⟨candidate, hin, hupdate⟩ := origin_step hstep horigin
    · exact (h.origin origin hkept).step hstep
    · exact hposition ▸ hnow
    · exact ((h.captured candidate hin).2 origin hupdate).step hstep
  · intro candidate hin
    obtain hold | ⟨scan, rfl⟩ := candidate_step hstep hin
    · obtain ⟨hcontrols, hmoment⟩ := h.captured candidate hold
      exact ⟨hcontrols.trans (.step hstep), fun origin hupdate => (hmoment origin hupdate).step hstep⟩
    · exact ⟨.step hstep, fun origin hupdate => originUpdate_capture hupdate ▸ hnow⟩

theorem Timed.start (maxLines : Nat) (capacityCheckPending : Bool) :
    Timed (.start maxLines capacityCheckPending) [] (.start maxLines capacityCheckPending) := by
  refine ⟨fun origin horigin => ?_, fun candidate hin => absurd hin not_mem_nil⟩
  cases capacityCheckPending with
  | false => cases horigin
  | true => exact Option.some.inj horigin ▸ Moment.here .start

/-- In every run of a session: the armed origin is a moment of the run; a recheck scans what
the buffers hold of the output since then; an observation is written back only where latch and
origin are those it was made with; and a step that changes them changes the control revision,
until it is exhausted for good. -/
theorem recheck_sound {maxLines : Nat} {capacityCheckPending : Bool} {events : List Event}
    {w : World} (h : Run Steps (.start maxLines capacityCheckPending) events w) :
    (∀ origin, w.handle.capacity.resumeScanOrigin = some origin →
      Moment (.start maxLines capacityCheckPending) events w origin) ∧
    (∀ earlier later m, Run Steps (.start maxLines capacityCheckPending) earlier m →
      Run Steps m later w → w.handle.capacity.resumeScanOrigin = some m.position →
      (w.handle.capacity.staleRecheck || w.handle.capacity.baseline) = true → Scans m w) ∧
    (∀ candidate ∈ w.candidates, candidate.current w.handle.capacity = true →
      w.handle.capacity.atUsageLimitLatched = candidate.state.atUsageLimitLatched ∧
        w.handle.capacity.resumeScanOrigin = candidate.state.resumeScanOrigin) ∧
    ∀ event w', Steps w event w' →
      (w.handle.capacity.controlRevision = none → w'.handle.capacity.controlRevision = none) ∧
      (w'.handle.capacity.controlRevision = w.handle.capacity.controlRevision →
        w.handle.capacity.controlRevision = none ∨
          (w'.handle.capacity.atUsageLimitLatched = w.handle.capacity.atUsageLimitLatched ∧
            w'.handle.capacity.resumeScanOrigin = w.handle.capacity.resumeScanOrigin)) := by
  have hsound {events : List Event} {w : World}
      (h : Run Steps (.start maxLines capacityCheckPending) events w) : Sound w :=
    h.invariant Sound (.start _ _) Sound.step
  have htimed : Timed (.start maxLines capacityCheckPending) events w :=
    h.history (Timed (.start maxLines capacityCheckPending)) (.start _ _) Timed.step
  refine ⟨htimed.origin, ?_, ?_, ?_⟩
  · intro earlier later m hearlier hlater horigin hscoped
    have hafter : Later m w := hlater.invariant (Later m) (.refl m) Later.step
    exact hafter.scans (hsound hearlier) (hsound h) hscoped horigin
  · intro candidate hin hcurrent
    obtain ⟨hsome, hequal⟩ := Bool.and_eq_true_iff.mp hcurrent
    exact (htimed.captured candidate hin).1.same (eq_of_beq hequal) hsome
  · intro event w' hstep
    have hcontrols := Controls.step hstep
    refine ⟨fun hnone => ?_, fun hsame => ?_⟩
    · cases hexhausted : w'.handle.capacity.analysisExhausted with
      | true => rw [CapacityState.controlRevision, hexhausted, if_pos rfl]
      | false =>
        rw [CapacityState.controlRevision, (hcontrols.unchanged hexhausted).1] at hnone
        cases hnone
    · cases hrevision : w'.handle.capacity.controlRevision with
      | none => exact .inl (hsame.symm.trans hrevision)
      | some revision =>
        exact .inr (hcontrols.same hsame (Option.isSome_iff_exists.mpr ⟨revision, hrevision⟩))

/-! ## A sample run -/

/-- A limit is detected and latched, and then input is accepted. -/
def latchedEvents : List Event :=
  [.output ["at limit".toList] "at limit\n".toList 80, .capture (some (fun _ _ => (true, none))),
    .project 0 false, .acceptedInput]

def latchedWorld : World :=
  (latchedEvents.foldlM World.step (.start 2 false)).getD (.start 2 false)

/-- A row that fills the width, and one that ends its line. -/
def freshOutput : Event := .output ["fresh".toList, "!".toList] "fresh\n!\n".toList 5

def freshWorld : World := (latchedWorld.step freshOutput).getD latchedWorld

theorem recheck_sound_fresh : freshWorld.handle.capacity.staleRecheck = true ∧
    freshWorld.handle.outputBuffer.lines.map Prod.snd = ["at limit".toList, "fresh!".toList] ∧
    Scans latchedWorld freshWorld := by
  have hlatched : Run Steps (.start 2 false) latchedEvents.reverse latchedWorld :=
    .of_foldlM rfl
  have hfresh : Run Steps latchedWorld [freshOutput] freshWorld := .next .start rfl
  exact ⟨rfl, rfl, (recheck_sound (hlatched.append hfresh)).2.1 _ _ _ hlatched hfresh rfl rfl⟩

end Orkworksd.Peon.CapacityAnalysis
