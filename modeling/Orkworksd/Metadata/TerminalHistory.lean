import Orkworksd.Metadata.TerminalOutput
import Mathlib.Data.List.GetD

/- The persisted history is a faithful end of the output.

   1. Every place where `drain_persist_records` cuts the output is one where decoding may
      be cut: behind a newline, before a byte that begins a character, or where no
      character is incomplete (`flushEnd_cut`). So the records of a stream, put together,
      are its decoding however it came in (`drainChunks_joined`).
   2. An encoded record is one line without a newline inside, and reading the file splits
      it into exactly the encoded records (`physicalLines_content`).
   3. Appending and trimming keep the file at the marker and the newest records
      (`Keeps.run`), and `history_faithful` puts the two together. -/
namespace Orkworksd.Metadata.Terminal
open Orkworksd.Lib List

variable {kept : List TerminalOutputRecord} {record : TerminalOutputRecord}

/-! Draining. -/

/-- Texts and delimiters, one after the other. -/
def joined (records : List TerminalOutputRecord) : Bytes :=
  records.flatMap (fun record => record.text ++ record.delimiter)

theorem joined_append (x y : List TerminalOutputRecord) :
    joined (x ++ y) = joined x ++ joined y := flatMap_append

variable {b : UInt8}

theorem lossy_singleton (ascii : b < 0x80) : Utf8.lossy [b] = [b] :=
  Utf8.lossy_of_wellFormed (Utf8.wellFormed_ascii ascii)

theorem not_continuation_of_ascii (ascii : b < 0x80) : Utf8.isContinuation b = false := by
  unfold Utf8.isContinuation
  grind

theorem lossy_before_ascii (x : Bytes) (ascii : b < 0x80) (y : Bytes) :
    Utf8.lossy (x ++ b :: y) = Utf8.lossy x ++ Utf8.lossy (b :: y) := by
  refine Utf8.lossy_append (.inr ?_)
  rintro _ _ same
  obtain ⟨rfl, -⟩ := List.cons.inj same
  exact not_continuation_of_ascii ascii

theorem lossy_behind_ascii (x : Bytes) (ascii : b < 0x80) (y : Bytes) :
    Utf8.lossy (x ++ [b] ++ y) = Utf8.lossy (x ++ [b]) ++ Utf8.lossy y := by
  refine Utf8.lossy_append (.inl ?_)
  rw [Utf8.decode_append, Utf8.decode_cons, Utf8.decode_nil,
    Utf8.feed_of_not_continuation _ (not_continuation_of_ascii ascii), Utf8.start, if_pos ascii]

variable (line : Bytes)

theorem lineRecord_joined :
    joined [lineRecord (line ++ [newline])] = Utf8.lossy (line ++ [newline]) := by
  have newlineText : Utf8.lossy [newline] = [newline] := lossy_singleton (by decide)
  have cut := lossy_before_ascii line (by decide : newline < 0x80) []
  unfold lineRecord
  split
  · next ends =>
    -- the carriage return is the last byte of the line
    obtain ⟨text, same⟩ := ends
    have split : text ++ [carriageReturn] = line :=
      append_cancel_right (by rw [← same]; simp)
    subst split
    have inner := lossy_before_ascii text (by decide : carriageReturn < 0x80) []
    rw [cut, newlineText, inner, lossy_singleton (by decide)]
    simp [joined, TerminalOutputRecord.text, TerminalOutputRecord.delimiter]
  · rw [cut, newlineText]
    simp [joined, TerminalOutputRecord.text, TerminalOutputRecord.delimiter]

variable (bytes : Bytes)

theorem drainLines_joined (future : Bytes) : Utf8.lossy (line ++ bytes ++ future)
      = joined (drainLines line bytes).1 ++ Utf8.lossy ((drainLines line bytes).2 ++ future) := by
  induction bytes generalizing line with
  | nil => simp [drainLines, joined]
  | cons b rest ih =>
    unfold drainLines
    split
    · next ends =>
      subst ends
      have apart := lossy_behind_ascii line (by decide : newline < 0x80) (rest ++ future)
      have shape : line ++ newline :: rest ++ future = line ++ [newline] ++ (rest ++ future) := by
        simp
      have later := ih []
      rw [nil_append] at later
      rw [shape, apart, later, ← lineRecord_joined, ← append_assoc, ← joined_append]
      rfl
    · have shape : line ++ b :: rest ++ future = line ++ [b] ++ rest ++ future := by simp
      rw [shape, ih]

theorem isContinuation_iff (b : UInt8) :
    (b &&& 0xc0 = 0x80) ↔ Utf8.isContinuation b = true := by
  obtain ⟨n⟩ := b
  revert n
  decide

theorem firstContinuation_eq {buffer : Bytes} {steps k stop : Nat} (few : k < steps)
    (continuations : ∀ j < k, Utf8.isContinuation (buffer.getD (stop - 1 - j) 0) = true)
    (lead : Utf8.isContinuation (buffer.getD (stop - 1 - k) 0) = false) :
    firstContinuation buffer steps stop = stop - k := by
  induction k generalizing steps stop with
  | zero =>
    cases steps with
    | zero => omega
    | succ steps =>
      unfold firstContinuation
      rw [Nat.sub_zero] at lead
      rw [if_neg (fun continues => ?_), Nat.sub_zero]
      rw [isContinuation_iff, lead] at continues
      cases continues
  | succ k ih =>
    cases steps with
    | zero => omega
    | succ steps =>
      unfold firstContinuation
      have first := continuations 0 (by omega)
      rw [Nat.sub_zero] at first
      rw [if_pos ((isContinuation_iff _).mpr first), ih (by omega)]
      · omega
      · intro j small
        have := continuations (j + 1) (by omega)
        rwa [show stop - 1 - 1 - j = stop - 1 - (j + 1) by omega]
      · rwa [show stop - 1 - 1 - k = stop - 1 - (k + 1) by omega]

variable (buffer : Bytes)

theorem firstContinuation_ge (steps stop : Nat) :
    stop - steps ≤ firstContinuation buffer steps stop ∧ firstContinuation buffer steps stop ≤ stop := by
  induction steps generalizing stop with
  | zero => exact ⟨Nat.le_refl _, Nat.le_refl _⟩
  | succ steps ih =>
    unfold firstContinuation
    split
    · have := ih (stop - 1)
      omega
    · omega

theorem partialPersistFlushEnd_pos :
    0 < partialPersistFlushEnd buffer ∧ partialPersistFlushEnd buffer ≤ maxPartialPersistBytes := by
  have bounds := firstContinuation_ge buffer 3 maxPartialPersistBytes
  have large : maxPartialPersistBytes = 65536 := rfl
  unfold partialPersistFlushEnd
  dsimp only
  split <;> omega

theorem expectedLen_of_lead {lead : UInt8} (h : Utf8.isLead lead = true) :
    expectedLen lead = Utf8.width lead := by
  obtain ⟨n⟩ := lead
  revert n
  decide

theorem not_continuation_of_expected (h : 1 < expectedLen b) : Utf8.isContinuation b = false := by
  obtain ⟨n⟩ := b
  revert n
  decide

theorem not_continuation_of_lead (h : Utf8.isLead b = true) : Utf8.isContinuation b = false := by
  unfold Utf8.isLead at h
  unfold Utf8.isContinuation
  grind

/-- What an incomplete character still is: a lead byte, then continuation bytes, and fewer
than the lead byte announces. -/
theorem pending_shape {lead : UInt8} {rest : Bytes}
    (incomplete : Utf8.verdict (lead :: rest) = .incomplete) :
    rest.length + 1 < Utf8.width lead ∧ ∀ b ∈ rest, Utf8.isContinuation b = true := by
  cases rest with
  | nil =>
    refine ⟨?_, by simp⟩
    unfold Utf8.width
    split
    · simp
    · split <;> simp
  | cons second more =>
    unfold Utf8.verdict at incomplete
    dsimp only at incomplete
    split at incomplete
    · cases incomplete
    · next valid =>
      split at incomplete
      · next short =>
        refine ⟨short, fun b member => ?_⟩
        rcases mem_cons.mp member with rfl | member
        · by_contra other
          have invalid := Utf8.verdict_of_not_continuation (cons_ne_nil lead [])
            (Bool.eq_false_iff.mpr other)
          simp only [singleton_append, Utf8.verdict, all_nil, Bool.not_true,
            Bool.or_false] at invalid
          split at invalid
          · next refused =>
            rw [refused] at valid
            simp at valid
          · split at invalid <;> cases invalid
        · simp only [Bool.or_eq_true, Bool.not_eq_true', not_or, Bool.not_eq_false] at valid
          exact all_eq_true.mp valid.2 b member
      · cases incomplete

theorem flushEnd_cut {buffer : Bytes} (long : maxPartialPersistBytes < buffer.length) :
    (Utf8.decode [] (buffer.take (partialPersistFlushEnd buffer))).pending = []
      ∨ ∃ b rest, buffer.drop (partialPersistFlushEnd buffer) = b :: rest
        ∧ Utf8.isContinuation b = false := by
  have bounds := firstContinuation_ge buffer 3 maxPartialPersistBytes
  have large : maxPartialPersistBytes = 65536 := rfl
  by_cases before : maxPartialPersistBytes
      - (firstContinuation buffer 3 maxPartialPersistBytes - 1)
      < expectedLen (buffer.getD (firstContinuation buffer 3 maxPartialPersistBytes - 1) 0)
  · right
    have cut : partialPersistFlushEnd buffer
        = firstContinuation buffer 3 maxPartialPersistBytes - 1 := by
      simp only [partialPersistFlushEnd, if_pos before]
    rw [cut]
    have inside : firstContinuation buffer 3 maxPartialPersistBytes - 1 < buffer.length := by omega
    refine ⟨_, _, drop_eq_getElem_cons inside, not_continuation_of_expected ?_⟩
    rw [getD_eq_getElem _ _ inside] at before
    omega
  · left
    have cut : partialPersistFlushEnd buffer = maxPartialPersistBytes := by
      simp only [partialPersistFlushEnd, if_neg before]
    rw [cut]
    rcases Utf8.pending_decode (.inl rfl) (buffer.take maxPartialPersistBytes) with
      none_ | ⟨lead, rest, pending, isLead, incomplete⟩
    · exact none_
    · -- an incomplete character would have been found on the way back
      exfalso
      rw [pending] at incomplete
      obtain ⟨short, continuations⟩ := pending_shape incomplete
      have suffix := @Utf8.pending_suffix [] (buffer.take maxPartialPersistBytes)
      rw [pending, nil_append] at suffix
      obtain ⟨front, same⟩ := suffix
      have taken : (buffer.take maxPartialPersistBytes).length = maxPartialPersistBytes := by
        rw [length_take]
        omega
      have sizes : front.length + (rest.length + 1) = maxPartialPersistBytes := by
        rw [← taken, ← same]
        simp
      have few : Utf8.width lead ≤ 4 := by
        unfold Utf8.width
        split
        · omega
        · split <;> omega
      have spelled : ∀ i, i < rest.length + 1 →
          buffer.getD (front.length + i) 0 = (lead :: rest).getD i 0 := by
        intro i small
        have here : front.length + i < maxPartialPersistBytes := by omega
        have whole : buffer.getD (front.length + i) 0
            = (buffer.take maxPartialPersistBytes).getD (front.length + i) 0 := by
          rw [getD_eq_getElem?_getD, getD_eq_getElem?_getD, List.getElem?_take_of_lt here]
        rw [whole, ← same, getD_append_right _ _ _ _ (by omega)]
        congr 1
        omega
      have start : firstContinuation buffer 3 maxPartialPersistBytes
          = maxPartialPersistBytes - rest.length := by
        refine firstContinuation_eq (by omega) ?_ ?_
        · intro j small
          rw [show maxPartialPersistBytes - 1 - j = front.length + (rest.length - j) by omega,
            spelled _ (by omega), show rest.length - j = (rest.length - j - 1) + 1 by omega,
            getD_cons_succ, getD_eq_getElem _ _ (by omega)]
          exact continuations _ (getElem_mem _)
        · rw [show maxPartialPersistBytes - 1 - rest.length = front.length + 0 by omega,
            spelled _ (by omega), getD_cons_zero]
          exact not_continuation_of_lead isLead
      rw [start, show maxPartialPersistBytes - rest.length - 1 = front.length + 0 by omega,
        spelled _ (by omega), getD_cons_zero, expectedLen_of_lead isLead] at before
      omega

theorem flushPartial_joined (fuel : Nat) (buffer future : Bytes) :
    Utf8.lossy (buffer ++ future)
      = joined (flushPartial fuel buffer).1 ++ Utf8.lossy ((flushPartial fuel buffer).2 ++ future) := by
  induction fuel generalizing buffer with
  | zero => simp [flushPartial, joined]
  | succ fuel ih =>
    unfold flushPartial
    split
    · next long =>
      have apart : Utf8.lossy (buffer ++ future)
          = Utf8.lossy (buffer.take (partialPersistFlushEnd buffer))
            ++ Utf8.lossy (buffer.drop (partialPersistFlushEnd buffer) ++ future) := by
        rw [← Utf8.lossy_append, ← append_assoc, take_append_drop]
        rcases flushEnd_cut long with none_ | ⟨b, rest, next, begins⟩
        · exact .inl none_
        · right
          intro b' rest' same
          rw [next] at same
          obtain ⟨rfl, -⟩ := List.cons.inj same
          exact begins
      dsimp only
      rw [apart, ih]
      simp [joined, TerminalOutputRecord.text, TerminalOutputRecord.delimiter]
    · simp [joined]

theorem flushPartial_bounded {fuel : Nat} {buffer : Bytes} (enough : buffer.length ≤ fuel) :
    (flushPartial fuel buffer).2.length ≤ maxPartialPersistBytes := by
  induction fuel generalizing buffer with
  | zero =>
    rw [flushPartial]
    dsimp only
    omega
  | succ fuel ih =>
    unfold flushPartial
    split
    · have progress := partialPersistFlushEnd_pos buffer
      refine ih ?_
      rw [length_drop]
      omega
    · dsimp only
      omega

theorem drainPersistRecords_joined (future : Bytes) : Utf8.lossy (buffer ++ future)
      = joined (drainPersistRecords buffer).1
        ++ Utf8.lossy ((drainPersistRecords buffer).2 ++ future) := by
  have lines := drainLines_joined [] buffer future
  rw [nil_append] at lines
  unfold drainPersistRecords
  dsimp only
  rw [lines, flushPartial_joined (drainLines [] buffer).2.length, joined_append, append_assoc]

variable (chunks : List Bytes)

theorem drainChunks_joined (future : Bytes) : Utf8.lossy (buffer ++ chunks.flatten ++ future)
      = joined (drainChunks buffer chunks).1
        ++ Utf8.lossy ((drainChunks buffer chunks).2 ++ future) := by
  induction chunks generalizing buffer with
  | nil => simp [drainChunks, joined]
  | cons chunk chunks ih =>
    have shape : buffer ++ (chunk :: chunks).flatten ++ future
        = (buffer ++ chunk) ++ (chunks.flatten ++ future) := by simp
    unfold drainChunks
    dsimp only
    rw [shape, drainPersistRecords_joined, ← append_assoc _ chunks.flatten, ih, joined_append,
      append_assoc]

theorem drainChunks_bounded (small : buffer.length ≤ maxPartialPersistBytes) :
    (drainChunks buffer chunks).2.length ≤ maxPartialPersistBytes := by
  induction chunks generalizing buffer with
  | nil => exact small
  | cons chunk chunks ih =>
    unfold drainChunks
    dsimp only
    refine ih _ ?_
    unfold drainPersistRecords
    exact flushPartial_bounded (Nat.le_refl _)

theorem drained_joined : joined (drained chunks) = Utf8.lossy chunks.flatten := by
  have whole := drainChunks_joined [] chunks []
  rw [nil_append, append_nil, append_nil] at whole
  rw [whole]
  unfold drained
  dsimp only
  split
  · next empty =>
    rw [List.isEmpty_iff.mp empty]
    simp [Utf8.lossy, Utf8.decode_nil, Utf8.flush]
  · simp [joined, TerminalOutputRecord.text, TerminalOutputRecord.delimiter]

/-! The lines of the file. -/

/-- The line a record is written as. -/
def encodedLine (record : TerminalOutputRecord) : Bytes :=
  encodeTerminalOutputRecord record ++ [newline]

/-- A versioned file with these records. -/
def content (records : List TerminalOutputRecord) : Bytes :=
  fileMarker ++ records.flatMap encodedLine

/-- The bytes of the records' lines. -/
def encodedBytes (records : List TerminalOutputRecord) : Nat :=
  totalBytes (records.map encodedLine)

variable (text : Bytes)

theorem newline_notMem_escape : newline ∉ escape text := by
  have single : ∀ b : UInt8, newline ∉ escapeByte b := by
    rintro ⟨n⟩
    revert n
    decide
  intro member
  obtain ⟨b, -, inside⟩ := mem_flatMap.mp member
  exact single b inside

theorem newline_notMem_encode (record : TerminalOutputRecord) :
    newline ∉ encodeTerminalOutputRecord record := by
  have constants : newline ∉ recordPrefix ∧ newline ∉ jsonText ∧ newline ∉ jsonDelimiter
      ∧ newline ∉ jsonEnd := by decide +kernel
  have text := newline_notMem_escape record.text
  have delimiter := newline_notMem_escape record.delimiter
  unfold encodeTerminalOutputRecord toJson
  simp only [mem_append, not_or]
  exact ⟨constants.1, ⟨constants.2.1, text⟩, constants.2.2.1, delimiter, constants.2.2.2⟩

theorem physicalLines_line {line : Bytes} (inner : newline ∉ line) (rest : Bytes) :
    physicalLines (line ++ [newline] ++ rest) = (line ++ [newline]) :: physicalLines rest := by
  induction line with
  | nil => simp [physicalLines]
  | cons b line ih =>
    obtain ⟨other, inner⟩ := not_or.mp (fun h => inner (mem_cons.mpr h))
    have split := ih inner
    rw [cons_append, cons_append, physicalLines, if_neg (Ne.symm other), split]

variable (records : List TerminalOutputRecord)

theorem physicalLines_encoded :
    physicalLines (records.flatMap encodedLine) = records.map encodedLine := by
  induction records with
  | nil => rfl
  | cons record records ih =>
    rw [flatMap_cons, encodedLine, physicalLines_line (newline_notMem_encode record), ih]
    rfl

theorem physicalLines_content :
    physicalLines (content records) = fileMarker :: records.map encodedLine := by
  have shape : fileMarker = fileMarker.dropLast ++ [newline] := by decide +kernel
  have inner : newline ∉ fileMarker.dropLast := by decide +kernel
  unfold content
  conv_lhs => rw [shape]
  rw [physicalLines_line inner, physicalLines_encoded, ← shape]

theorem content_length : (content records).length = fileMarker.length + encodedBytes records := by
  unfold content encodedBytes totalBytes
  rw [length_append, length_flatMap, map_map]
  rfl

theorem encodedBytes_suffix {records : List TerminalOutputRecord} (suffix : kept <:+ records) :
    encodedBytes kept ≤ encodedBytes records := by
  obtain ⟨front, rfl⟩ := suffix
  unfold encodedBytes totalBytes
  rw [map_append, map_append, sum_append]
  omega

/-! Reading the tail. -/

theorem keepLine_discards (maxLines : Nat) (lines kept : List Bytes) :
    (lines.foldl (keepLine maxLines) (kept, true)).2 = true := by
  induction lines generalizing kept with
  | nil => rfl
  | cons line lines ih =>
    rw [foldl_cons, keepLine]
    split
    · exact ih _
    · split
      · exact ih _
      · exact ih _

theorem keepLine_foldl {maxLines : Nat} (lines : List Bytes) {kept : List Bytes} {discarded : Bool}
    (room : kept.length ≤ maxLines) :
    let result := lines.foldl (keepLine maxLines) (kept, discarded)
    result.1 <:+ kept ++ lines ∧ result.1.length ≤ maxLines
      ∧ (result.2 = false → result.1 = kept ++ lines) := by
  induction lines generalizing kept discarded with
  | nil => exact ⟨by simp, room, fun _ => by simp⟩
  | cons line lines ih =>
    rw [foldl_cons]
    simp only [keepLine]
    split
    · next none_ =>
      have empty : kept = [] := eq_nil_of_length_eq_zero (by omega)
      subst empty
      obtain ⟨suffix, bound, -⟩ := @ih [] true (by simp)
      refine ⟨suffix.trans (suffix_cons _ _), bound, fun whole => ?_⟩
      rw [keepLine_discards] at whole
      cases whole
    · split
      · next full =>
        obtain ⟨suffix, bound, -⟩ := @ih (kept.drop 1 ++ [line]) true (by simp; omega)
        refine ⟨suffix.trans ?_, bound, fun whole => ?_⟩
        · refine ⟨kept.take 1, ?_⟩
          rw [append_assoc, ← append_assoc, take_append_drop]
          rfl
        · rw [keepLine_discards] at whole
          cases whole
      · next free =>
        have step := @ih (kept ++ [line]) discarded (by simp; omega)
        rwa [append_assoc] at step

theorem fitBytes_spec (maxBytes : Nat) (lines : List Bytes) (discarded : Bool) :
    let result := fitBytes maxBytes lines discarded
    result.1 <:+ lines ∧ totalBytes result.1 ≤ maxBytes
      ∧ (result.2 = false → discarded = false ∧ result.1 = lines) := by
  induction lines generalizing discarded with
  | nil => exact ⟨suffix_refl _, by simp [fitBytes, totalBytes], fun whole => ⟨whole, rfl⟩⟩
  | cons line lines ih =>
    unfold fitBytes
    split
    · obtain ⟨suffix, bound, whole⟩ := ih true
      refine ⟨suffix.trans (suffix_cons _ _), bound, fun kept => ?_⟩
      cases (whole kept).1
    · next fits => exact ⟨suffix_refl _, Nat.not_lt.mp fits, fun whole => ⟨whole, rfl⟩⟩

theorem readTerminalOutputTail_content (records : List TerminalOutputRecord) (maxLines maxBytes : Nat) :
    let tail := readTerminalOutputTail (content records) maxLines maxBytes
    ∃ kept, kept <:+ records ∧ tail.physical = kept.map encodedLine ∧ tail.marker = some fileMarker
      ∧ kept.length ≤ maxLines ∧ encodedBytes kept ≤ maxBytes
      ∧ (tail.discarded = false → kept = records) := by
  obtain ⟨linesSuffix, linesBound, linesWhole⟩ :=
    @keepLine_foldl maxLines (records.map encodedLine) [] false (by simp)
  obtain ⟨suffix, bytes, whole⟩ := fitBytes_spec maxBytes
    ((records.map encodedLine).foldl (keepLine maxLines) ([], false)).1
    ((records.map encodedLine).foldl (keepLine maxLines) ([], false)).2
  rw [nil_append] at linesSuffix linesWhole
  obtain ⟨kept, records_suffix, lines⟩ := suffix_map_iff.mp (suffix.trans linesSuffix)
  unfold readTerminalOutputTail
  rw [physicalLines_content]
  dsimp only
  rw [if_pos rfl]
  refine ⟨kept, records_suffix, lines, rfl, ?_, ?_, fun none_ => ?_⟩
  · have shorter := suffix.length_le
    rw [lines, length_map] at shorter
    omega
  · rw [lines] at bytes
    exact bytes
  · -- nothing was dropped, so the suffix is as long as the whole
    obtain ⟨linesNone, same⟩ := whole none_
    rw [lines, linesWhole linesNone] at same
    refine records_suffix.eq_of_length ?_
    have sizes := congrArg List.length same
    rwa [length_map, length_map] at sizes

/-! Reading back what was written. -/

/-- A record as draining makes them. -/
def Drained (record : TerminalOutputRecord) : Prop :=
  ∃ text delimiter, record = .raw text delimiter ∧ Utf8.WellFormed text
    ∧ delimiter ∈ [[], [newline], [carriageReturn, newline]]

theorem lineRecord_drained : Drained (lineRecord line) := by
  unfold lineRecord
  split
  · exact ⟨_, _, rfl, Utf8.wellFormed_lossy _, by simp⟩
  · exact ⟨_, _, rfl, Utf8.wellFormed_lossy _, by simp⟩

theorem partial_drained : Drained (.raw (Utf8.lossy bytes) []) :=
  ⟨_, _, rfl, Utf8.wellFormed_lossy _, by simp⟩

theorem drainLines_drained : ∀ record ∈ (drainLines line bytes).1, Drained record := by
  induction bytes generalizing line with
  | nil => simp [drainLines]
  | cons b rest ih =>
    unfold drainLines
    split
    · exact forall_mem_cons.mpr ⟨lineRecord_drained _, ih []⟩
    · exact ih _

theorem flushPartial_drained (fuel : Nat) (buffer : Bytes) :
    ∀ record ∈ (flushPartial fuel buffer).1, Drained record := by
  induction fuel generalizing buffer with
  | zero => simp [flushPartial]
  | succ fuel ih =>
    unfold flushPartial
    split
    · exact forall_mem_cons.mpr ⟨partial_drained _, ih _⟩
    · simp

theorem drainChunks_drained : ∀ record ∈ (drainChunks buffer chunks).1, Drained record := by
  induction chunks generalizing buffer with
  | nil => simp [drainChunks]
  | cons chunk chunks ih =>
    unfold drainChunks drainPersistRecords
    refine forall_mem_append.mpr ⟨forall_mem_append.mpr ⟨?_, ?_⟩, ih _⟩
    · exact drainLines_drained _ _
    · exact flushPartial_drained _ _

theorem drained_drained : ∀ record ∈ drained chunks, Drained record := by
  have records := drainChunks_drained [] chunks
  unfold drained
  dsimp only
  split
  · exact records
  · exact forall_mem_append.mpr ⟨records, by simpa using partial_drained _⟩

theorem escape_wellFormed {text : Bytes} (wellFormed : Utf8.WellFormed text) :
    Utf8.WellFormed (escape text) := by
  refine Utf8.WellFormed.flatMap ?_ ?_ wellFormed
  · rintro ⟨n⟩
    revert n
    decide
  · rintro ⟨n⟩
    unfold Utf8.WellFormed
    revert n
    decide

theorem delimiter_wellFormed {delimiter : Bytes}
    (allowed : delimiter ∈ [[], [newline], [carriageReturn, newline]]) :
    Utf8.WellFormed delimiter := by
  unfold Utf8.WellFormed
  simp only [mem_cons, not_mem_nil, or_false] at allowed
  rcases allowed with rfl | rfl | rfl <;> decide

theorem encode_wellFormed (drained : Drained record) :
    Utf8.WellFormed (encodeTerminalOutputRecord record) := by
  obtain ⟨text, delimiter, rfl, textOk, allowed⟩ := drained
  have delimiterOk := delimiter_wellFormed allowed
  have constants : Utf8.WellFormed recordPrefix ∧ Utf8.WellFormed jsonText
      ∧ Utf8.WellFormed jsonDelimiter ∧ Utf8.WellFormed jsonEnd := by
    unfold Utf8.WellFormed
    decide +kernel
  obtain ⟨mark, head, middle, tail⟩ := constants
  exact mark.append ((head.append (escape_wellFormed textOk)).append
    (middle.append ((escape_wellFormed delimiterOk).append tail)))

section Reader

variable {fromJson : Bytes → Option StoredTerminalOutputRecord}
  (reads : ∀ text delimiter, Utf8.WellFormed text → Utf8.WellFormed delimiter →
    fromJson (toJson text delimiter) = some ⟨1, text, delimiter⟩)
include reads

theorem decode_encodedLine (drained : Drained record) :
    decodeTerminalOutputRecord fromJson (lineText (encodedLine record)) = record := by
  have line : lineText (encodedLine record) = encodeTerminalOutputRecord record := by
    unfold lineText encodedLine
    rw [List.getLast?_concat, if_pos rfl, dropLast_concat,
      Utf8.lossy_of_wellFormed (encode_wellFormed drained)]
  obtain ⟨text, delimiter, rfl, textOk, allowed⟩ := drained
  have delimiterOk := delimiter_wellFormed allowed
  rw [line]
  have stored := reads text delimiter textOk delimiterOk
  simp only [encodeTerminalOutputRecord, recordPrefix, singleton_append,
    decodeTerminalOutputRecord, TerminalOutputRecord.text, TerminalOutputRecord.delimiter, stored]
  rw [if_pos ⟨trivial, allowed⟩]

theorem readTerminalOutput_content {records : List TerminalOutputRecord}
    (drained : ∀ record ∈ records, Drained record) (maxLines : Nat) :
    let read := readTerminalOutput fromJson (some (content records)) maxLines
    read <:+ records ∧ read.length ≤ maxLines ∧ encodedBytes read ≤ terminalOutputMaxBytes := by
  obtain ⟨kept, suffix, physical, marker, few, small, -⟩ :=
    readTerminalOutputTail_content records maxLines terminalOutputMaxBytes
  have same : readTerminalOutput fromJson (some (content records)) maxLines = kept := by
    simp only [readTerminalOutput, physical, marker, Option.isSome_some, if_true, map_map]
    conv_rhs => rw [← map_id kept]
    refine map_congr_left (fun record member => ?_)
    exact decode_encodedLine reads (drained record (suffix.subset member))
  dsimp only
  rw [same]
  exact ⟨suffix, few, small⟩

end Reader

/-! The file over a whole run. -/

/-- The file holds the newest of the records appended to it, within its limits. -/
def Keeps (file : Option Bytes) (records : List TerminalOutputRecord) : Prop :=
  (file = none ∧ records = []) ∨
    ∃ kept, kept <:+ records ∧ file = some (content kept) ∧ kept.length ≤ terminalOutputMaxLines
      ∧ encodedBytes kept ≤ terminalOutputMaxBytes

theorem trimTerminalOutput_content (maxLines : Nat) :
    ∃ kept, kept <:+ records ∧ trimTerminalOutput (some (content records)) maxLines = some (content kept)
      ∧ kept.length ≤ maxLines ∧ encodedBytes kept ≤ terminalOutputTrimTargetBytes := by
  obtain ⟨kept, suffix, physical, marker, few, small, whole⟩ :=
    readTerminalOutputTail_content records maxLines terminalOutputTrimTargetBytes
  refine ⟨kept, suffix, ?_, few, small⟩
  simp only [trimTerminalOutput]
  split
  · rw [physical, marker, content, flatMap_def]
    rfl
  · next none_ => rw [whole (Bool.eq_false_iff.mpr none_)]

variable {file : Option Bytes}

theorem appendTerminalOutputRecords_eq
    (held : file.getD [] = [] ∧ kept = [] ∨ file = some (content kept))
    {records : List TerminalOutputRecord} (some_ : records ≠ []) :
    appendTerminalOutputRecords file records =
      if terminalOutputMaxBytes < encodedBytes (kept ++ records)
          || terminalOutputMaxLines < (kept ++ records).length then
        trimTerminalOutput (some (content (kept ++ records))) terminalOutputTrimTargetLines
      else some (content (kept ++ records)) := by
  have written : (if (file.getD []).isEmpty then fileMarker else file.getD [])
      ++ records.flatMap encodedLine = content (kept ++ records) := by
    rcases held with ⟨absent, rfl⟩ | rfl
    · rw [absent]
      rfl
    · simp [content, fileMarker, recordPrefix, flatMap_append]
  have versioned : ((file.getD []).isEmpty || terminalOutputIsVersioned (file.getD [])) = true := by
    rcases held with ⟨absent, -⟩ | rfl
    · simp [absent]
    · simp [terminalOutputIsVersioned, physicalLines_content]
  have exceeds : terminalOutputExceedsLineLimit (content (kept ++ records)) terminalOutputMaxLines
      = decide (terminalOutputMaxLines < (kept ++ records).length) := by
    unfold terminalOutputExceedsLineLimit
    rw [physicalLines_content]
    simp
  unfold appendTerminalOutputRecords
  rw [if_neg (by simpa using some_)]
  simp only [versioned, if_true]
  rw [show (fun record => encodeTerminalOutputRecord record ++ [newline]) = encodedLine from rfl]
  simp only [written, exceeds, content_length, Nat.add_sub_cancel_left]

theorem Keeps.append {before : List TerminalOutputRecord} (keeps : Keeps file before)
    (records : List TerminalOutputRecord) :
    Keeps (appendTerminalOutputRecords file records) (before ++ records) := by
  by_cases none_ : records = []
  · subst none_
    simpa [appendTerminalOutputRecords] using keeps
  · obtain ⟨kept, suffix, held⟩ : ∃ kept, kept <:+ before
        ∧ (file.getD [] = [] ∧ kept = [] ∨ file = some (content kept)) := by
      rcases keeps with ⟨rfl, rfl⟩ | ⟨kept, suffix, rfl, -⟩
      · exact ⟨[], suffix_refl _, .inl ⟨rfl, rfl⟩⟩
      · exact ⟨kept, suffix, .inr rfl⟩
    have longer : kept ++ records <:+ before ++ records := by
      obtain ⟨front, rfl⟩ := suffix
      exact ⟨front, (append_assoc ..).symm⟩
    have lineRoom : terminalOutputTrimTargetLines ≤ terminalOutputMaxLines := by decide
    have byteRoom : terminalOutputTrimTargetBytes ≤ terminalOutputMaxBytes := by decide
    rw [appendTerminalOutputRecords_eq held none_]
    right
    split
    · obtain ⟨left, trimmed, file, few, small⟩ :=
        trimTerminalOutput_content (kept ++ records) terminalOutputTrimTargetLines
      exact ⟨left, trimmed.trans longer, file, few.trans lineRoom, small.trans byteRoom⟩
    · next fits =>
      simp only [Bool.or_eq_true, decide_eq_true_eq, not_or, Nat.not_lt] at fits
      exact ⟨_, longer, rfl, fits.2, fits.1⟩

theorem Keeps.trim {records : List TerminalOutputRecord} (keeps : Keeps file records)
    (maxLines : Nat) : Keeps (trimTerminalOutput file maxLines) records := by
  rcases keeps with ⟨rfl, rfl⟩ | ⟨kept, suffix, rfl, few, small⟩
  · exact .inl ⟨rfl, rfl⟩
  · obtain ⟨left, trimmed, file, -, -⟩ := trimTerminalOutput_content kept maxLines
    exact .inr ⟨left, trimmed.trans suffix, file, trimmed.length_le.trans few,
      (encodedBytes_suffix trimmed).trans small⟩

theorem Keeps.run {before : List TerminalOutputRecord} (keeps : Keeps file before) (ops : List Op) :
    Keeps (ops.foldl Op.run file) (before ++ appended ops) := by
  induction ops generalizing file before with
  | nil => simpa [appended] using keeps
  | cons op ops ih =>
    cases op with
    | append records =>
      have step := ih (keeps.append records)
      rw [append_assoc] at step
      exact step
    | trim maxLines => exact ih (keeps.trim maxLines)

/-- Whatever was drained so far, in whatever batches it was appended and however often the
file was trimmed: reading gives back the newest records, text and delimiter intact, within
the limits. The records of the whole stream are its decoding, and at most 64 KiB of it are
pending after any of the chunks. -/
theorem history_faithful {fromJson : Bytes → Option StoredTerminalOutputRecord}
    (reads : ∀ text delimiter, Utf8.WellFormed text → Utf8.WellFormed delimiter →
      fromJson (toJson text delimiter) = some ⟨1, text, delimiter⟩)
    (chunks : List Bytes) (ops : List Op) (order : appended ops <+: drained chunks) (maxLines : Nat) :
    let file := ops.foldl Op.run none
    let read := readTerminalOutput fromJson file maxLines
    (read <:+ appended ops ∧ read.length ≤ maxLines ∧ read.length ≤ terminalOutputMaxLines
        ∧ encodedBytes read ≤ terminalOutputMaxBytes)
      ∧ (∀ bytes, file = some bytes → bytes.length ≤ fileMarker.length + terminalOutputMaxBytes
        ∧ (physicalLines bytes).length ≤ 1 + terminalOutputMaxLines)
      ∧ joined (drained chunks) = Utf8.lossy chunks.flatten
      ∧ ∀ seen, seen <+: chunks → (drainChunks [] seen).2.length ≤ 64 * 1024 := by
  have keeps : Keeps (ops.foldl Op.run none) (appended ops) := by
    have run := @Keeps.run none [] (.inl ⟨rfl, rfl⟩) ops
    rwa [nil_append] at run
  refine ⟨?_, ?_, drained_joined chunks, fun seen _ => drainChunks_bounded [] seen (by simp)⟩
  · rcases keeps with ⟨absent, none_⟩ | ⟨kept, suffix, file, few, -⟩
    · rw [absent, none_]
      simp [readTerminalOutput, encodedBytes, totalBytes]
    · have made : ∀ record ∈ kept, Drained record := fun record member =>
        drained_drained chunks record (order.subset (suffix.subset member))
      obtain ⟨newest, lines, small⟩ := readTerminalOutput_content reads made maxLines
      rw [file]
      exact ⟨newest.trans suffix, lines, newest.length_le.trans few, small⟩
  · rintro bytes file
    rcases keeps with ⟨absent, -⟩ | ⟨kept, -, same, few, small⟩
    · rw [absent] at file
      cases file
    · rw [same] at file
      cases file
      rw [content_length, physicalLines_content, length_cons, length_map]
      omega

/-- The character an escape of two bytes stands for. -/
def unescape (c : UInt8) : UInt8 :=
  if c = 0x62 then 0x08
  else if c = 0x74 then 0x09
  else if c = 0x6e then 0x0a
  else if c = 0x66 then 0x0c
  else if c = 0x72 then 0x0d
  else c

def unhex (c : UInt8) : UInt8 := if c < 0x3a then c - 0x30 else c - 0x61 + 10

/-- A JSON text up to its quote, and what follows. -/
def readText : Bytes → Option (Bytes × Bytes)
  | [] => none
  | b :: rest =>
    if b = 0x22 then some ([], rest)
    else if b = 0x5c then
      match rest with
      | [] => none
      | c :: rest =>
        if c = 0x75 then
          match rest with
          | _ :: _ :: high :: low :: rest =>
            (readText rest).map (fun read => ((unhex high * 16 + unhex low) :: read.1, read.2))
          | _ => none
        else (readText rest).map (fun read => (unescape c :: read.1, read.2))
    else (readText rest).map (fun read => (b :: read.1, read.2))

/-- A reader of records written by `toJson`. -/
def readJson (json : Bytes) : Option StoredTerminalOutputRecord := do
  let (text, rest) ← readText (json.drop jsonText.length)
  let (delimiter, _) ← readText (rest.drop (jsonDelimiter.length - 1))
  some ⟨1, text, delimiter⟩

theorem unhex_hexDigit (control : b < 0x20) :
    unhex (hexDigit (b / 16)) * 16 + unhex (hexDigit (b % 16)) = b := by
  obtain ⟨n⟩ := b
  revert n
  decide

theorem readText_escapeByte (b : UInt8) (rest : Bytes) :
    readText (escapeByte b ++ rest) = (readText rest).map (fun read => (b :: read.1, read.2)) := by
  have pair : ∀ c, c ≠ 0x75 → readText (0x5c :: c :: rest)
      = (readText rest).map (fun read => (unescape c :: read.1, read.2)) := by
    intro c other
    rw [readText.eq_def]
    simp [other]
  unfold escapeByte
  split_ifs with quote backslash _ _ _ _ _ control
  any_goals
    subst b
    exact pair _ (by decide)
  · rw [cons_append, readText.eq_def]
    simp [unhex_hexDigit control]
  · rw [singleton_append, readText.eq_def]
    simp [quote, backslash]

theorem readText_quote (rest : Bytes) : readText (0x22 :: rest) = some ([], rest) := by
  rw [readText.eq_def]
  simp

theorem readText_escape (rest : Bytes) :
    readText (escape text ++ 0x22 :: rest) = some (text, rest) := by
  induction text with
  | nil => exact readText_quote rest
  | cons b text ih =>
    rw [escape, flatMap_cons, append_assoc, readText_escapeByte]
    change Option.map _ (readText (escape text ++ 0x22 :: rest)) = _
    rw [ih]
    rfl

theorem readJson_toJson (delimiter : Bytes) :
    readJson (toJson text delimiter) = some ⟨1, text, delimiter⟩ := by
  have quote : jsonDelimiter = 0x22 :: jsonDelimiter.drop 1 := by decide +kernel
  have close : jsonEnd = 0x22 :: jsonEnd.drop 1 := by decide +kernel
  have length : jsonDelimiter.length - 1 = (jsonDelimiter.drop 1).length := length_drop.symm
  have first : readText ((toJson text delimiter).drop jsonText.length)
      = some (text, jsonDelimiter.drop 1 ++ (escape delimiter ++ jsonEnd)) := by
    unfold toJson
    rw [append_assoc, drop_left]
    conv_lhs => rw [quote]
    rw [cons_append, readText_escape]
  have second : readText ((jsonDelimiter.drop 1 ++ (escape delimiter ++ jsonEnd)).drop
      (jsonDelimiter.length - 1)) = some (delimiter, jsonEnd.drop 1) := by
    rw [length, drop_left]
    conv_lhs => rw [close]
    rw [readText_escape]
  simp only [readJson, first, second, Option.bind_eq_bind, Option.bind_some]

/-- Two chunks that cut a character, their records appended in two batches with a trim
between them; the last two come back. -/
theorem history_faithful_cut :
    let ops := [Op.append [.raw [0x61, 0xc3, 0xa9] [newline]], .trim 10,
      .append [.raw [0x62] [carriageReturn, newline], .raw [0x63] []]]
    let read := readTerminalOutput readJson (ops.foldl Op.run none) 2
    read = [.raw [0x62] [carriageReturn, newline], .raw [0x63] []] ∧ read <:+ appended ops :=
  ⟨by decide +kernel,
    (history_faithful (fun text delimiter _ _ => readJson_toJson text delimiter)
      [[0x61, 0xc3], [0xa9, newline, 0x62, carriageReturn, newline, 0x63]] _
      (by decide +kernel) 2).1.1⟩

end Orkworksd.Metadata.Terminal
