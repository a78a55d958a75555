import Mathlib.Data.List.ReduceOption
import Orkworksd.Runtime.TerminalReplay

/- The checkpoint of the bounded PTY replay is a bisimulation. A tracker re-entered
   from its own prefix is the tracker itself, except that an ignored control sequence
   comes back as a sequence whose parameters begin with a digit: it can never match a
   private mode, so it has no effect either (`Entered`). `Entered` is kept by every byte
   and the two trackers show the same text.

   What is proved:
     1. `entered_replayPrefix`: feeding `prefix()` to a fresh tracker re-enters it.
     2. `Entered.advance`, `Entered.shown`: from there on both read alike.
     3. `checkpoint_bisimulation`: the statement over byte strings, and over every
        sequence of chunks pushed into a `ReplayBuffer`. -/
namespace Orkworksd.Runtime.Replay
open List

open Orkworksd.Lib

namespace TerminalReplayModes

theorem advance_append (t : TerminalReplayModes) (x y : Bytes) :
    t.advance (x ++ y) = (t.advance x).advance y := foldl_append

theorem advance_cons (t : TerminalReplayModes) (b : UInt8) (bytes : Bytes) :
    t.advance (b :: bytes) = (t.advanceByte b).advance bytes := rfl

theorem shown_append (t : TerminalReplayModes) (x y : Bytes) :
    t.shown (x ++ y) = t.shown x ++ (t.advance x).shown y := by
  induction x generalizing t with
  | nil => rfl
  | cons b x ih =>
    rw [cons_append, shown, shown, ih, append_assoc]
    rfl

/-! ## The relation between a re-entered tracker and the original -/

/-- `Entered r t`: `r` is `t`, or `t` ignores a control sequence that `r` reads with
parameters that begin with a digit. -/
inductive Entered : TerminalReplayModes → TerminalReplayModes → Prop where
  | same (t : TerminalReplayModes) : Entered t t
  | ignored (t : TerminalReplayModes) (params : Bytes) : t.parser = .ignoreCsi →
      Entered { t with parser := .csi (0x30 :: params) } t

theorem csi_digit (t : TerminalReplayModes) (params : Bytes) (finalByte : UInt8) :
    t.csi (0x30 :: params) finalByte = t := by
  unfold csi
  rw [if_neg (by simp), if_pos (by simp)]

theorem Entered.parse {r t : TerminalReplayModes} (h : Entered r t) (b : UInt8) :
    Entered (r.parse b) (t.parse b) := by
  cases h with
  | same => exact .same _
  | ignored _ params hparser =>
    unfold TerminalReplayModes.parse
    simp only [hparser, csi_digit]
    by_cases hfinal : 0x40 ≤ b ∧ b ≤ 0x7e
    · rw [if_pos hfinal, if_pos hfinal]
      exact .same _
    · rw [if_neg hfinal, if_neg hfinal]
      split
      · exact .ignored t params hparser
      · split
        · exact .ignored t (params ++ [b]) hparser
        · rw [← hparser]
          exact .same t

theorem Entered.control {r t : TerminalReplayModes} (h : Entered r t) (b : UInt8) :
    Entered (r.control b) (t.control b) := by
  have hparse := h.parse b
  -- outside `parse` the new parser state does not depend on the old one
  have hset : ∀ state, ({ r with parser := state } : TerminalReplayModes) = { t with parser := state } := by
    intro state
    cases h <;> rfl
  unfold TerminalReplayModes.control
  split
  · rw [hset]
    exact .same _
  · split
    · rw [hset]
      exact .same _
    · split
      · rw [hset]
        exact .same _
      · split
        · exact h
        · split
          · rw [hset]
            exact .same _
          · split
            · rw [hset]
              exact .same _
            · exact hparse

variable {t r : TerminalReplayModes}

theorem Entered.utf8_eq (h : Entered r t) : r.utf8 = t.utf8 := by
  cases h <;> rfl

theorem Entered.withUtf8 (h : Entered r t) (utf8 : Bytes) :
    Entered { r with utf8 := utf8 } { t with utf8 := utf8 } := by
  cases h with
  | same => exact .same _
  | ignored _ params hparser => exact .ignored { t with utf8 := utf8 } params hparser

theorem Entered.advanceByte (h : Entered r t) (b : UInt8) :
    Entered (r.advanceByte b) (t.advanceByte b) := by
  unfold TerminalReplayModes.advanceByte
  rw [h.utf8_eq]
  split
  · split
    · exact h.control b
    · split
      · exact h.withUtf8 [b]
      · exact h.control 0xff
  · split
    · exact (h.withUtf8 []).control _
    · exact h.withUtf8 _
    · have hreplaced := (h.withUtf8 []).control 0xff
      dsimp only
      split
      · exact hreplaced.control b
      · split
        · exact hreplaced.withUtf8 [b]
        · exact hreplaced

theorem Entered.advance (h : Entered r t) (bytes : Bytes) :
    Entered (r.advance bytes) (t.advance bytes) := by
  induction bytes generalizing r t with
  | nil => exact h
  | cons b bytes ih => exact ih (h.advanceByte b)

theorem Entered.controlShown (h : Entered r t) (b : UInt8) :
    r.controlShown b = t.controlShown b := by
  cases h with
  | same => rfl
  | ignored _ params hparser => simp [TerminalReplayModes.controlShown, hparser]

theorem Entered.byteShown (h : Entered r t) (b : UInt8) :
    r.byteShown b = t.byteShown b := by
  unfold TerminalReplayModes.byteShown
  rw [h.utf8_eq]
  simp only [h.controlShown, (h.withUtf8 []).controlShown,
    ((h.withUtf8 []).control 0xff).controlShown]

theorem Entered.shown (h : Entered r t) (bytes : Bytes) :
    r.shown bytes = t.shown bytes := by
  induction bytes generalizing r t with
  | nil => rfl
  | cons b bytes ih =>
    rw [TerminalReplayModes.shown, TerminalReplayModes.shown, h.byteShown b, ih (h.advanceByte b)]

/-! ## What a tracker that read some bytes holds -/

/-- A byte that a control sequence keeps as a parameter. -/
def Param (b : UInt8) : Prop := (0x20 ≤ b ∧ b < 0x40) ∨ b = 0xff

/-- A parser state that `parserPrefix` can spell out. -/
def Spelled : ParserState → Prop
  | .ground => True
  | .escape intermediates =>
    intermediates.length ≤ maxSequenceBytes ∧ ∀ b ∈ intermediates, 0x20 ≤ b ∧ b ≤ 0x2f
  | .csi params => params.length ≤ maxSequenceBytes ∧ ∀ b ∈ params, Param b
  | .ignoreCsi => True
  | .string kind => kind = 0x5d ∨ kind = 0x50 ∨ kind = 0x58 ∨ kind = 0x5e ∨ kind = 0x5f

/-- The modes a tracker can hold. -/
structure ModesOk (t : TerminalReplayModes) : Prop where
  modes : t.modes.length = 5
  mouse : t.mouse = none ∨ t.mouse = some 9 ∨ t.mouse = some 1000 ∨ t.mouse = some 1002 ∨
    t.mouse = some 1003
  encoding : t.encoding = none ∨ t.encoding = some 1006 ∨ t.encoding = some 1016

structure Tracked (t : TerminalReplayModes) : Prop where
  modes : ModesOk t
  parser : Spelled t.parser
  utf8 : Utf8.Pending t.utf8

theorem ModesOk.default : ModesOk .default := ⟨rfl, .inl rfl, .inl rfl⟩

theorem Tracked.default : Tracked .default := ⟨.default, trivial, .inl rfl⟩

theorem ModesOk.withParser (h : ModesOk t) (state : ParserState) :
    ModesOk { t with parser := state } := ⟨h.modes, h.mouse, h.encoding⟩

theorem ModesOk.escapeEffect (h : ModesOk t) (intermediates : Bytes)
    (b : UInt8) : ModesOk (t.escapeEffect intermediates b) := by
  unfold TerminalReplayModes.escapeEffect
  split
  · exact .default
  · split
    · exact ⟨h.modes, h.mouse, h.encoding⟩
    · split
      · exact ⟨h.modes, h.mouse, h.encoding⟩
      · exact h

variable {b : UInt8}

variable {intermediates : Bytes}

theorem escapeEffect_utf8 (h : t.utf8 = []) : (t.escapeEffect intermediates b).utf8 = [] := by
  unfold escapeEffect
  split
  · rfl
  · split
    · exact h
    · split
      · exact h
      · exact h

theorem ModesOk.setMode (h : ModesOk t) (mode : Nat) (enabled : Bool) :
    ModesOk (t.setMode mode enabled) := by
  unfold TerminalReplayModes.setMode
  split
  · exact ⟨h.modes, h.mouse, h.encoding⟩
  · split
    · rename_i hmouse
      refine ⟨h.modes, ?_, h.encoding⟩
      cases enabled with
      | false => exact .inl rfl
      | true => rcases hmouse with rfl | rfl | rfl | rfl <;> simp
    · split
      · rename_i hencoding
        refine ⟨h.modes, h.mouse, ?_⟩
        cases enabled with
        | false => exact .inl rfl
        | true => rcases hencoding with rfl | rfl <;> simp
      · split
        · exact ⟨h.modes, h.mouse, h.encoding⟩
        · split
          · exact ⟨by simp [h.modes], h.mouse, h.encoding⟩
          · exact h

theorem ModesOk.csi (h : ModesOk t) (params : Bytes) (finalByte : UInt8) :
    ModesOk (t.csi params finalByte) := by
  unfold TerminalReplayModes.csi
  split
  · exact ⟨rfl, h.mouse, h.encoding⟩
  · split
    · exact h
    · split
      · exact h
      · generalize params.tail.splitOn 0x3b = numbers
        induction numbers generalizing t with
        | nil => exact h
        | cons number numbers ih =>
          refine ih ?_
          dsimp only
          split
          · exact h.setMode _ _
          · exact h

theorem csi_utf8 (t : TerminalReplayModes) (params : Bytes) (finalByte : UInt8) :
    (t.csi params finalByte).utf8 = t.utf8 := by
  have hset : ∀ (t : TerminalReplayModes) mode enabled, (t.setMode mode enabled).utf8 = t.utf8 := by
    intro t mode enabled
    unfold setMode
    repeat' split
    all_goals rfl
  unfold csi
  split
  · rfl
  · split
    · rfl
    · split
      · rfl
      · generalize params.tail.splitOn 0x3b = numbers
        induction numbers generalizing t with
        | nil => rfl
        | cons number numbers ih =>
          rw [foldl_cons, ih]
          split
          · exact hset _ _ _
          · rfl

/-- The bytes `advance` passes to `control`. -/
def Decoded (b : UInt8) : Prop := b < 0xa0 ∨ b = 0xff

/-- A byte that reaches the parser's own states is no control of the first
matches. -/
theorem Tracked.parse (h : Tracked t) (hutf8 : t.utf8 = [])
    (hb : b < 0x7f ∨ b = 0xff) : Tracked (t.parse b) ∧ (t.parse b).utf8 = [] := by
  have hparser := h.parser
  unfold TerminalReplayModes.parse
  cases hstate : t.parser with
  | ground => exact ⟨h, hutf8⟩
  | escape intermediates =>
    rw [hstate] at hparser
    dsimp only
    split
    · exact ⟨⟨h.modes.withParser _, ⟨Nat.zero_le _, by simp⟩, h.utf8⟩, hutf8⟩
    · split
      · rename_i hkind
        exact ⟨⟨h.modes.withParser _, hkind.2, h.utf8⟩, hutf8⟩
      · have hmodes := h.modes.escapeEffect intermediates b
        have hempty : (t.escapeEffect intermediates b).utf8 = [] := escapeEffect_utf8 hutf8
        split
        · rename_i hkeep
          refine ⟨⟨hmodes.withParser _, ⟨?_, ?_⟩, .inl hempty⟩, hempty⟩
          · rw [length_append]
            exact hkeep.2.2
          · intro c hc
            rcases mem_append.mp hc with hc | hc
            · exact hparser.2 c hc
            · rw [mem_singleton] at hc
              exact hc ▸ ⟨hkeep.1, hkeep.2.1⟩
        · split
          · exact ⟨⟨hmodes.withParser _, hparser, .inl hempty⟩, hempty⟩
          · exact ⟨⟨hmodes.withParser _, trivial, .inl hempty⟩, hempty⟩
  | csi params =>
    rw [hstate] at hparser
    dsimp only
    have hmodes := h.modes
    split
    · have hcsi := hmodes.csi params b
      have hempty : (t.csi params b).utf8 = [] := by rw [csi_utf8, hutf8]
      exact ⟨⟨hcsi.withParser _, trivial, .inl hempty⟩, hempty⟩
    · split
      · exact ⟨h, hutf8⟩
      · split
        · rename_i hfinal hcontrol hlength
          refine ⟨⟨hmodes.withParser _, ⟨?_, ?_⟩, .inl hutf8⟩, hutf8⟩
          · rw [length_append]
            exact hlength
          · intro c hc
            rcases mem_append.mp hc with hc | hc
            · exact hparser.2 c hc
            · rw [mem_singleton] at hc
              subst hc
              rcases hb with hb | hb
              · refine .inl ⟨by grind, ?_⟩
                by_contra hlt
                exact hfinal ⟨by grind, by grind⟩
              · exact .inr hb
        · exact ⟨⟨hmodes.withParser _, trivial, .inl hutf8⟩, hutf8⟩
  | ignoreCsi =>
    dsimp only
    split
    · exact ⟨⟨h.modes.withParser _, trivial, .inl hutf8⟩, hutf8⟩
    · exact ⟨h, hutf8⟩
  | string kind =>
    dsimp only
    split
    · exact ⟨⟨h.modes.withParser _, trivial, .inl hutf8⟩, hutf8⟩
    · exact ⟨h, hutf8⟩

theorem c1String_kind {kind : UInt8} (h : c1String b = some kind) : Spelled (.string kind) := by
  unfold c1String at h
  unfold Spelled
  grind

theorem Tracked.control (h : Tracked t) (hutf8 : t.utf8 = [])
    (hb : Decoded b) : Tracked (t.control b) ∧ (t.control b).utf8 = [] := by
  have hset : ∀ state, Spelled state → Tracked { t with parser := state } ∧
      ({ t with parser := state } : TerminalReplayModes).utf8 = [] := fun state hstate =>
    ⟨⟨h.modes.withParser state, hstate, h.utf8⟩, hutf8⟩
  unfold TerminalReplayModes.control
  split
  · exact hset _ ⟨Nat.zero_le _, by simp⟩
  · split
    · rename_i hkind
      exact hset _ (c1String_kind hkind)
    · split
      · exact hset _ trivial
      · split
        · exact ⟨h, hutf8⟩
        · rename_i hplain
          split
          · exact hset _ trivial
          · split
            · exact hset _ ⟨Nat.zero_le _, by simp⟩
            · refine h.parse hutf8 ?_
              rcases hb with hb | hb
              · left
                grind
              · exact .inr hb

theorem decoded_ff : Decoded 0xff := .inr rfl

theorem decoded_ascii (h : b < 0x80) : Decoded b := by
  left
  exact UInt8.lt_trans h (by decide)

theorem decoded_charControl (utf8 : Bytes) : Decoded (charControl utf8) := by
  unfold charControl
  split
  · dsimp only
    split
    · rename_i hcode
      left
      rw [UInt8.lt_iff_toNat_lt, UInt8.toNat_ofNat']
      have hsmall : (160 : Nat) = (0xa0 : UInt8).toNat := rfl
      omega
    · exact decoded_ff
  · exact decoded_ff

theorem Tracked.clearUtf8 (h : Tracked t) : Tracked { t with utf8 := [] } :=
  ⟨⟨h.modes.modes, h.modes.mouse, h.modes.encoding⟩, h.parser, .inl rfl⟩

theorem Tracked.lead (h : Tracked t) (hb : Utf8.isLead b = true) : Tracked { t with utf8 := [b] } :=
  ⟨⟨h.modes.modes, h.modes.mouse, h.modes.encoding⟩, h.parser, .inr ⟨b, [], rfl, hb, rfl⟩⟩

theorem Tracked.advanceByte (h : Tracked t) (b : UInt8) :
    Tracked (t.advanceByte b) := by
  unfold TerminalReplayModes.advanceByte
  split
  · rename_i hutf8
    split
    · rename_i hascii
      exact (h.control hutf8 (decoded_ascii hascii)).1
    · split
      · rename_i hlead
        exact h.lead hlead
      · exact (h.control hutf8 decoded_ff).1
  · rename_i hutf8
    split
    · exact (h.clearUtf8.control rfl (decoded_charControl _)).1
    · rename_i hverdict
      refine ⟨⟨h.modes.modes, h.modes.mouse, h.modes.encoding⟩, h.parser, ?_⟩
      rcases h.utf8 with hempty | ⟨lead, rest, hrest, hlead, -⟩
      · exact absurd hempty hutf8
      · refine .inr ⟨lead, rest ++ [b], ?_, hlead, hverdict⟩
        rw [hrest]
        rfl
    · obtain ⟨hreplaced, hempty⟩ := h.clearUtf8.control rfl decoded_ff
      dsimp only
      split
      · rename_i hascii
        exact (hreplaced.control hempty (decoded_ascii hascii)).1
      · split
        · rename_i hlead
          exact hreplaced.lead hlead
        · exact hreplaced

theorem Tracked.advance (h : Tracked t) (bytes : Bytes) : Tracked (t.advance bytes) := by
  induction bytes generalizing t with
  | nil => exact h
  | cons b bytes ih => exact ih (h.advanceByte b)

/-! ## The prefix re-enters the tracker -/

theorem advanceByte_ascii (h : t.utf8 = []) (hb : b < 0x80) : t.advanceByte b = t.control b := by
  unfold advanceByte
  rw [if_pos h, if_pos hb]

theorem advanceByte_param {params : Bytes} (h : t.utf8 = []) (hparser : t.parser = .csi params)
    (hlength : params.length < maxSequenceBytes) (hb : Param b) :
    t.advanceByte b = { t with parser := .csi (params ++ [b]) } := by
  have hcontrol : t.advanceByte b = t.control b := by
    rcases hb with hb | rfl
    · exact advanceByte_ascii h (by grind)
    · unfold advanceByte
      rw [if_pos h]
      rfl
  rw [hcontrol]
  have hparse : t.parse b = { t with parser := .csi (params ++ [b]) } := by
    unfold parse
    rw [hparser]
    dsimp only
    rcases hb with hb | rfl
    · rw [if_neg (by grind), if_neg (by grind), if_pos hlength]
    · rw [if_neg (by decide), if_neg (by decide), if_pos hlength]
  rw [← hparse]
  unfold control
  rcases hb with hb | rfl
  · have hnone : c1String b = none := by
      unfold c1String
      grind
    rw [if_neg (by grind), hnone]
    dsimp only
    rw [if_neg (by grind), if_neg (by grind), if_neg (by grind), if_neg (by grind)]
  · rfl

variable {before : Bytes}

theorem advanceByte_intermediate (h : t.utf8 = []) (hparser : t.parser = .escape intermediates)
    (hlength : intermediates.length < maxSequenceBytes) (hb : 0x20 ≤ b ∧ b ≤ 0x2f) :
    t.advanceByte b = { t with parser := .escape (intermediates ++ [b]) } := by
  rw [advanceByte_ascii h (by grind)]
  have hparse : t.parse b = { t with parser := .escape (intermediates ++ [b]) } := by
    unfold parse
    rw [hparser]
    dsimp only
    rw [if_neg (by grind), if_neg (by grind), if_pos ⟨hb.1, hb.2, hlength⟩]
    have heffect : t.escapeEffect intermediates b = t := by
      unfold escapeEffect
      rw [if_neg (by grind), if_neg (by grind), if_neg (by grind)]
    rw [heffect]
  rw [← hparse]
  unfold control
  have hnone : c1String b = none := by
    unfold c1String
    grind
  rw [if_neg (by grind), hnone]
  dsimp only
  rw [if_neg (by grind), if_neg (by grind), if_neg (by grind), if_neg (by grind)]

theorem advance_utf8 (h : t.utf8 = []) {utf8 : Bytes} (hpending : Utf8.Pending utf8) :
    t.advance utf8 = { t with utf8 := utf8 } ∧ t.shown utf8 = [] := by
  rcases hpending with rfl | ⟨lead, rest, rfl, hlead, hverdict⟩
  · refine ⟨?_, rfl⟩
    obtain ⟨parser, pending, modes, alternate, mouse, encoding, keypad⟩ := t
    cases h
    rfl
  · induction rest using List.reverseRecOn with
    | nil =>
      have hascii : ¬ lead < 0x80 := by
        unfold Utf8.isLead at hlead
        grind
      refine ⟨?_, ?_⟩
      · rw [advance_cons, advanceByte, if_pos h, if_neg hascii, if_pos hlead]
        rfl
      · rw [shown, shown, byteShown, if_pos h, if_neg hascii, if_pos hlead]
        rfl
    | append_singleton rest b ih =>
      obtain ⟨hadvance, hshown⟩ := ih (Utf8.verdict_init hverdict)
      rw [← cons_append, advance_append, shown_append, hadvance, hshown]
      have hne : lead :: rest ≠ [] := by simp
      refine ⟨?_, ?_⟩
      · rw [advance_cons, advanceByte, if_neg hne]
        dsimp only
        rw [cons_append, hverdict]
        rfl
      · rw [shown, shown, byteShown, if_neg hne]
        dsimp only
        rw [cons_append, hverdict]
        rfl

theorem byteShown_of_sequence (h : t.utf8 = []) (hparser : t.parser ≠ .ground) (b : UInt8) :
    t.byteShown b = [] := by
  have hshown : ∀ b, t.controlShown b = [] := by
    intro b
    unfold controlShown
    rw [if_neg (fun hcond => hparser hcond.1)]
  unfold byteShown
  rw [if_pos h]
  split
  · exact hshown b
  · split
    · rfl
    · exact hshown 0xff

/-- Bytes that the parser collects are read into its state, and none is shown. -/
theorem collected {state : Bytes → ParserState} {P : UInt8 → Prop}
    (hstate : ∀ read, state read ≠ .ground)
    (hstep : ∀ {t : TerminalReplayModes} {before : Bytes} {b : UInt8}, t.utf8 = [] →
      t.parser = state before → before.length < maxSequenceBytes → P b →
        t.advanceByte b = { t with parser := state (before ++ [b]) })
    (h : t.utf8 = []) (hparser : t.parser = state before) (bytes : Bytes)
    (hlength : before.length + bytes.length ≤ maxSequenceBytes) (hbytes : ∀ b ∈ bytes, P b) :
    t.advance bytes = { t with parser := state (before ++ bytes) } ∧ t.shown bytes = [] := by
  induction bytes generalizing t before with
  | nil =>
    rw [append_nil, ← hparser]
    exact ⟨rfl, rfl⟩
  | cons b bytes ih =>
    rw [length_cons] at hlength
    obtain ⟨hrest, hquiet⟩ := ih (t := { t with parser := state (before ++ [b]) }) h rfl
      (by rw [length_append, length_singleton]; omega)
      (fun c hc => hbytes c (mem_cons_of_mem b hc))
    rw [advance_cons, shown, hstep h hparser (by omega) (hbytes b mem_cons_self), hrest, hquiet,
      byteShown_of_sequence h (hparser ▸ hstate before)]
    simp

/-- The parser's state is re-entered, an ignored sequence as one that matches
nothing, and nothing is shown on the way. -/
theorem entered_parserPrefix (hutf8 : t.utf8 = []) (hground : t.parser = .ground)
    {state : ParserState} (hstate : Spelled state) :
    Entered (t.advance (parserPrefix state)) { t with parser := state } ∧
      t.shown (parserPrefix state) = [] := by
  obtain ⟨parser, utf8, modes, alternate, mouse, encoding, keypad⟩ := t
  cases hutf8
  cases hground
  cases state with
  | ground => exact ⟨.same _, rfl⟩
  | escape intermediates =>
    obtain ⟨hlength, hbytes⟩ := hstate
    have hesc : TerminalReplayModes.advance ⟨.ground, [], modes, alternate, mouse, encoding, keypad⟩
        (0x1b :: intermediates) =
        TerminalReplayModes.advance ⟨.escape [], [], modes, alternate, mouse, encoding, keypad⟩
          intermediates := rfl
    obtain ⟨hread, hquiet⟩ := collected (by simp) advanceByte_intermediate
      (t := ⟨.escape [], [], modes, alternate, mouse, encoding, keypad⟩)
      rfl rfl intermediates (by simpa using hlength) hbytes
    rw [parserPrefix, hesc, hread]
    exact ⟨.same _, hquiet⟩
  | csi params =>
    obtain ⟨hlength, hparams⟩ := hstate
    have hcsi : TerminalReplayModes.advance ⟨.ground, [], modes, alternate, mouse, encoding, keypad⟩
        ([0x1b, 0x5b] ++ params) =
        TerminalReplayModes.advance ⟨.csi [], [], modes, alternate, mouse, encoding, keypad⟩
          params := rfl
    obtain ⟨hread, hquiet⟩ := collected (by simp) advanceByte_param
      (t := ⟨.csi [], [], modes, alternate, mouse, encoding, keypad⟩)
      rfl rfl params (by simpa using hlength) hparams
    rw [parserPrefix, hcsi, hread]
    exact ⟨.same _, hquiet⟩
  | ignoreCsi =>
    exact ⟨.ignored ⟨.ignoreCsi, [], modes, alternate, mouse, encoding, keypad⟩ [0x3f] rfl, rfl⟩
  | string kind =>
    rcases hstate with rfl | rfl | rfl | rfl | rfl
    all_goals exact ⟨.same _, rfl⟩

/-! ### The modes -/

/-- A tracker between sequences. -/
def Idle (t : TerminalReplayModes) : Prop := t.parser = .ground ∧ t.utf8 = []

/-- The private modes a prefix names. -/
def prefixedModes : List Nat := [1049, 9, 1000, 1002, 1003, 1006, 1016, 1, 7, 25, 1004, 2004]

variable {mode : Nat}

theorem modeDigits_prefixed (h : mode ∈ prefixedModes) :
    (∀ b ∈ modeDigits mode, 0x30 ≤ b ∧ b ≤ 0x39) ∧ (modeDigits mode).length ≤ 4 ∧
      parseMode (modeDigits mode) = some mode := by
  revert mode
  decide +kernel

theorem csi_private (t : TerminalReplayModes) {digits : Bytes}
    (hdigits : ∀ b ∈ digits, 0x30 ≤ b ∧ b ≤ 0x39) (hparse : parseMode digits = some mode)
    (enabled : Bool) :
    t.csi (0x3f :: digits) (if enabled then 0x68 else 0x6c) = t.setMode mode enabled := by
  have hplain : digits.all (fun b => (0x30 ≤ b && b ≤ 0x39) || b == 0x3b) = true := by
    rw [all_eq_true]
    intro b hb
    have := hdigits b hb
    grind
  have hsplit : digits.splitOn 0x3b = [digits] := by
    refine splitOn_eq_singleton ?_
    intro hb
    have := hdigits 0x3b hb
    revert this
    decide
  unfold csi
  rw [if_neg (by simp), if_neg (by cases enabled <;> simp), tail_cons, hplain, hsplit]
  rw [if_neg (by simp), foldl_cons, foldl_nil, hparse]
  cases enabled <;> rfl

theorem advanceByte_final (h : t.utf8 = []) {params : Bytes} (hparser : t.parser = .csi params)
    (hb : 0x40 ≤ b ∧ b ≤ 0x7e) : t.advanceByte b = { t.csi params b with parser := .ground } := by
  rw [advanceByte_ascii h (by grind)]
  have hparse : t.parse b = { t.csi params b with parser := .ground } := by
    unfold parse
    rw [hparser]
    dsimp only
    rw [if_pos hb]
  rw [← hparse]
  unfold control
  have hnone : c1String b = none := by
    unfold c1String
    grind
  rw [if_neg (by grind), hnone]
  dsimp only
  rw [if_neg (by grind), if_neg (by grind), if_neg (by grind), if_neg (by grind)]

theorem setMode_withParser (t : TerminalReplayModes) (state : ParserState) (mode : Nat)
    (enabled : Bool) :
    ({ t with parser := state } : TerminalReplayModes).setMode mode enabled =
      { t.setMode mode enabled with parser := state } := by
  unfold setMode
  split
  · rfl
  · split
    · rfl
    · split
      · rfl
      · split
        · rfl
        · split <;> rfl

theorem setMode_parses (t : TerminalReplayModes) (mode : Nat) (enabled : Bool) :
    (t.setMode mode enabled).parser = t.parser := by
  unfold setMode
  split
  · rfl
  · split
    · rfl
    · split
      · rfl
      · split
        · rfl
        · split <;> rfl

theorem advance_privateMode (h : Idle t) (hmode : mode ∈ prefixedModes) (enabled : Bool) :
    t.advance (privateMode mode enabled) = t.setMode mode enabled ∧
      t.shown (privateMode mode enabled) = [] := by
  obtain ⟨hground, hutf8⟩ := h
  obtain ⟨hdigits, hlength, hparse⟩ := modeDigits_prefixed hmode
  have hparams : ∀ b ∈ 0x3f :: modeDigits mode, Param b := by
    intro b hb
    rcases mem_cons.mp hb with rfl | hb
    · exact .inl (by decide)
    · have := hdigits b hb
      exact .inl (by grind)
  have hcsi : t.advance [0x1b, 0x5b] = { t with parser := .csi [] } ∧ t.shown [0x1b, 0x5b] = [] := by
    obtain ⟨parser, utf8, modes, alternate, mouse, encoding, keypad⟩ := t
    cases hground
    cases hutf8
    exact ⟨rfl, rfl⟩
  have hlong : ([] : Bytes).length + (0x3f :: modeDigits mode).length ≤ maxSequenceBytes := by
    have : maxSequenceBytes = 128 := rfl
    simp only [length_nil, length_cons]
    omega
  obtain ⟨hread, hquiet⟩ := collected (by simp) advanceByte_param
    (t := { t with parser := .csi [] }) hutf8 rfl _ hlong hparams
  simp only [nil_append] at hread
  have hfinal : (0x40 : UInt8) ≤ (if enabled then 0x68 else 0x6c) ∧
      (if enabled then (0x68 : UInt8) else 0x6c) ≤ 0x7e := by
    cases enabled <;> decide
  unfold privateMode
  rw [advance_append, advance_append, shown_append, shown_append, advance_append, hcsi.1, hcsi.2,
    hread, hquiet]
  refine ⟨?_, ?_⟩
  · rw [advance_cons, advanceByte_final (t := { t with parser := .csi (0x3f :: modeDigits mode) })
      hutf8 rfl hfinal, csi_private _ hdigits hparse, setMode_withParser]
    change ({ t.setMode mode enabled with parser := .ground } : TerminalReplayModes) = _
    rw [← hground, ← setMode_parses t mode enabled]
  · rw [shown, shown, byteShown_of_sequence
      (t := { t with parser := .csi (0x3f :: modeDigits mode) }) hutf8 (by simp)]
    rfl

/-- `Restores t x u`: reading `x`, the tracker `t` becomes `u` and shows nothing. -/
def Restores (t : TerminalReplayModes) (x : Bytes) (u : TerminalReplayModes) : Prop :=
  t.advance x = u ∧ t.shown x = []

variable {u : TerminalReplayModes}

theorem Restores.append {v : TerminalReplayModes} {x y : Bytes} (hx : Restores t x u)
    (hy : Restores u y v) : Restores t (x ++ y) v := by
  refine ⟨?_, ?_⟩
  · rw [advance_append, hx.1, hy.1]
  · rw [shown_append, hx.1, hx.2, hy.2]
    rfl

theorem Restores.ite (h : Idle t) {c : Prop} [Decidable c] (hmode : mode ∈ prefixedModes)
    {enabled : Bool} (hsame : c → t = u) (hset : ¬ c → t.setMode mode enabled = u) :
    Restores t (if c then [] else privateMode mode enabled) u := by
  split
  · rename_i hc
    exact ⟨hsame hc, rfl⟩
  · rename_i hc
    rw [← hset hc]
    exact advance_privateMode h hmode enabled

theorem restores_modePrefix (h : ModesOk t) :
    Restores .default t.modePrefix { t with parser := .ground, utf8 := [] } := by
  obtain ⟨parser, utf8, modes, alternate, mouse, encoding, keypad⟩ := t
  obtain ⟨hmodes, hmouse, hencoding⟩ := h
  dsimp only at hmodes hmouse hencoding
  obtain ⟨m1, m2, m3, m4, m5, rfl⟩ : ∃ m1 m2 m3 m4 m5, modes = [m1, m2, m3, m4, m5] := by
    obtain _ | ⟨m1, _ | ⟨m2, _ | ⟨m3, _ | ⟨m4, _ | ⟨m5, rest⟩⟩⟩⟩⟩ := modes
    case cons.cons.cons.cons.cons =>
      have hrest : rest = [] := length_eq_zero_iff.mp (by simpa using hmodes)
      exact ⟨m1, m2, m3, m4, m5, by rw [hrest]⟩
    all_goals cases hmodes
  have hidle : ∀ modes alternate mouse encoding keypad,
      Idle ⟨.ground, [], modes, alternate, mouse, encoding, keypad⟩ := fun _ _ _ _ _ => ⟨rfl, rfl⟩
  unfold modePrefix
  -- the alternate buffer and the keypad
  have halternate : Restores .default (if alternate then privateMode 1049 true else [])
      ⟨.ground, [], defaultModes, alternate, none, none, false⟩ := by
    cases alternate with
    | false => exact ⟨rfl, rfl⟩
    | true => exact advance_privateMode ⟨rfl, rfl⟩ (by decide) true
  have hkeypad : Restores ⟨.ground, [], defaultModes, alternate, none, none, false⟩
      (if keypad then [0x1b, 0x3d] else [])
      ⟨.ground, [], defaultModes, alternate, none, none, keypad⟩ := by
    cases keypad <;> exact ⟨rfl, rfl⟩
  -- the mouse protocol and its encoding
  have hmouse' : Restores ⟨.ground, [], defaultModes, alternate, none, none, keypad⟩
      (mouse.toList.flatMap (fun mode => privateMode mode true))
      ⟨.ground, [], defaultModes, alternate, mouse, none, keypad⟩ := by
    rcases hmouse with rfl | rfl | rfl | rfl | rfl
    · exact ⟨rfl, rfl⟩
    all_goals
      simp only [Option.toList_some, flatMap_cons, flatMap_nil, append_nil]
      exact advance_privateMode (hidle _ _ _ _ _) (by decide) true
  have hencoding' : Restores ⟨.ground, [], defaultModes, alternate, mouse, none, keypad⟩
      (encoding.toList.flatMap (fun mode => privateMode mode true))
      ⟨.ground, [], defaultModes, alternate, mouse, encoding, keypad⟩ := by
    rcases hencoding with rfl | rfl | rfl
    · exact ⟨rfl, rfl⟩
    all_goals
      simp only [Option.toList_some, flatMap_cons, flatMap_nil, append_nil]
      exact advance_privateMode (hidle _ _ _ _ _) (by decide) true
  have hservices : [mouse, encoding].reduceOption.flatMap (fun mode => privateMode mode true) =
      mouse.toList.flatMap (fun mode => privateMode mode true) ++
        encoding.toList.flatMap (fun mode => privateMode mode true) := by
    cases mouse <;> cases encoding <;> simp
  -- the five private modes, one after the other
  have hfive : Restores ⟨.ground, [], defaultModes, alternate, mouse, encoding, keypad⟩
      ((modeNumbers.zip ([m1, m2, m3, m4, m5].zip defaultModes)).flatMap
        (fun p => if p.2.1 = p.2.2 then [] else privateMode p.1 p.2.1))
      ⟨.ground, [], [m1, m2, m3, m4, m5], alternate, mouse, encoding, keypad⟩ := by
    have hone : Restores ⟨.ground, [], defaultModes, alternate, mouse, encoding, keypad⟩
        (if m1 = false then [] else privateMode 1 m1)
        ⟨.ground, [], [m1, true, true, false, false], alternate, mouse, encoding, keypad⟩ :=
      .ite (hidle _ _ _ _ _) (by decide) (fun h => by rw [h]; rfl) (fun _ => rfl)
    have htwo : Restores ⟨.ground, [], [m1, true, true, false, false], alternate, mouse, encoding, keypad⟩
        (if m2 = true then [] else privateMode 7 m2)
        ⟨.ground, [], [m1, m2, true, false, false], alternate, mouse, encoding, keypad⟩ :=
      .ite (hidle _ _ _ _ _) (by decide) (fun h => by rw [h]) (fun _ => rfl)
    have hthree : Restores ⟨.ground, [], [m1, m2, true, false, false], alternate, mouse, encoding, keypad⟩
        (if m3 = true then [] else privateMode 25 m3)
        ⟨.ground, [], [m1, m2, m3, false, false], alternate, mouse, encoding, keypad⟩ :=
      .ite (hidle _ _ _ _ _) (by decide) (fun h => by rw [h]) (fun _ => rfl)
    have hfour : Restores ⟨.ground, [], [m1, m2, m3, false, false], alternate, mouse, encoding, keypad⟩
        (if m4 = false then [] else privateMode 1004 m4)
        ⟨.ground, [], [m1, m2, m3, m4, false], alternate, mouse, encoding, keypad⟩ :=
      .ite (hidle _ _ _ _ _) (by decide) (fun h => by rw [h]) (fun _ => rfl)
    have hlast : Restores ⟨.ground, [], [m1, m2, m3, m4, false], alternate, mouse, encoding, keypad⟩
        (if m5 = false then [] else privateMode 2004 m5)
        ⟨.ground, [], [m1, m2, m3, m4, m5], alternate, mouse, encoding, keypad⟩ :=
      .ite (hidle _ _ _ _ _) (by decide) (fun h => by rw [h]) (fun _ => rfl)
    simp only [modeNumbers, defaultModes, zip_cons_cons, zip_nil_right, flatMap_cons,
      flatMap_nil, append_nil]
    exact hone.append (htwo.append (hthree.append (hfour.append hlast)))
  rw [hservices]
  exact ((halternate.append hkeypad).append (hmouse'.append hencoding')).append hfive

theorem entered_replayPrefix (h : Tracked t) :
    Entered (TerminalReplayModes.default.advance t.replayPrefix) t ∧
      TerminalReplayModes.default.shown t.replayPrefix = [] := by
  have hmodes := restores_modePrefix h.modes
  obtain ⟨hparser, hquiet⟩ := entered_parserPrefix
    (t := { t with parser := .ground, utf8 := [] }) rfl rfl h.parser
  have hutf8 := advance_utf8 (t := { t with utf8 := [] }) rfl h.utf8
  unfold replayPrefix
  rw [advance_append, advance_append, shown_append, shown_append, advance_append, hmodes.1, hmodes.2,
    hquiet]
  refine ⟨?_, ?_⟩
  · have hentered := hparser.advance t.utf8
    rw [hutf8.1] at hentered
    exact hentered
  · rw [hparser.shown t.utf8]
    exact hutf8.2

end TerminalReplayModes

/-! ## The checkpoint -/

/-- Where a tracker stands: between sequences, inside an escape or control sequence,
or inside a control string. -/
inductive ParserClass where
  | ground | sequence | string
  deriving DecidableEq, Repr

def ParserState.parserClass : ParserState → ParserClass
  | .ground => .ground
  | .escape _ | .csi _ | .ignoreCsi => .sequence
  | .string _ => .string

/-- Two trackers agree on every mode and on where they stand. -/
structure Agree (r t : TerminalReplayModes) : Prop where
  alternate : r.alternate = t.alternate
  mouse : r.mouse = t.mouse
  encoding : r.encoding = t.encoding
  applicationKeypad : r.applicationKeypad = t.applicationKeypad
  modes : r.modes = t.modes
  standing : r.parser.parserClass = t.parser.parserClass

theorem TerminalReplayModes.Entered.agree {r t : TerminalReplayModes}
    (h : TerminalReplayModes.Entered r t) : Agree r t := by
  cases h with
  | same => exact ⟨rfl, rfl, rfl, rfl, rfl, rfl⟩
  | ignored _ params hparser => exact ⟨rfl, rfl, rfl, rfl, rfl, by rw [hparser]; rfl⟩

namespace ReplayBuffer

/-- The chunks that left the buffer went through the tracker, the others are kept
in order. -/
structure Holds (buffer : ReplayBuffer) (chunks : List Bytes) : Prop where
  split : ∃ evicted, chunks = evicted ++ buffer.chunks.map Prod.snd ∧
    buffer.modes = TerminalReplayModes.default.advance evicted.flatten
  kept : 0 < buffer.capacity → chunks ≠ [] → buffer.chunks ≠ []

variable (capacity : Nat)

theorem Holds.new : Holds (.new capacity) [] :=
  ⟨⟨[], rfl, rfl⟩, fun _ h => absurd rfl h⟩

theorem evict_split (chunks : List (Nat × Bytes)) (modes : TerminalReplayModes) :
    ∃ evicted, chunks = evicted ++ (evict capacity chunks modes).1 ∧
      (evict capacity chunks modes).2 = modes.advance (evicted.map Prod.snd).flatten := by
  induction chunks generalizing modes with
  | nil => exact ⟨[], rfl, rfl⟩
  | cons chunk chunks ih =>
    rw [evict]
    split
    · obtain ⟨evicted, hsplit, hmodes⟩ := ih (modes.advance chunk.2)
      refine ⟨chunk :: evicted, ?_, ?_⟩
      · rw [cons_append, ← hsplit]
      · rw [hmodes, map_cons, flatten_cons, TerminalReplayModes.advance_append]
    · exact ⟨[], rfl, rfl⟩

theorem evict_ne_nil {capacity : Nat} (hcapacity : 0 < capacity) {chunks : List (Nat × Bytes)}
    (hne : chunks ≠ []) (modes : TerminalReplayModes) : (evict capacity chunks modes).1 ≠ [] := by
  induction chunks generalizing modes with
  | nil => exact absurd rfl hne
  | cons chunk chunks ih =>
    rw [evict]
    split
    · rename_i hlong
      refine ih ?_ _
      intro hnil
      rw [hnil, length_singleton] at hlong
      omega
    · simp

variable {buffer : ReplayBuffer}

theorem Holds.push {chunks : List Bytes} (h : Holds buffer chunks) (chunk : Bytes) :
    Holds (buffer.push chunk) (chunks ++ [chunk]) := by
  obtain ⟨before, hchunks, hmodes⟩ := h.split
  obtain ⟨evicted, hsplit, hevicted⟩ :=
    evict_split buffer.capacity (buffer.chunks ++ [(buffer.nextCursor, chunk)]) buffer.modes
  refine ⟨⟨before ++ evicted.map Prod.snd, ?_, ?_⟩, ?_⟩
  · have hkept := congrArg (List.map Prod.snd) hsplit
    rw [map_append, map_append, map_singleton] at hkept
    rw [hchunks, append_assoc, append_assoc, hkept]
    rfl
  · rw [flatten_append, TerminalReplayModes.advance_append, ← hmodes]
    exact hevicted
  · intro hcapacity _
    exact evict_ne_nil hcapacity (by simp) buffer.modes

theorem holds_pushAll (chunks : List Bytes) : Holds (chunks.foldl push (new capacity)) chunks ∧
      (chunks.foldl push (new capacity)).capacity = capacity := by
  induction chunks using List.reverseRecOn with
  | nil => exact ⟨.new capacity, rfl⟩
  | append_singleton chunks chunk ih =>
    rw [foldl_append]
    exact ⟨ih.1.push chunk, ih.2⟩

theorem replayed_eq (h : buffer.chunks ≠ []) :
    buffer.replayed = buffer.modes.replayPrefix ++ (buffer.chunks.map Prod.snd).flatten := by
  unfold replayed snapshot
  cases hchunks : buffer.chunks with
  | nil => exact absurd hchunks h
  | cons chunk chunks => simp [List.flatMap, append_assoc]

end ReplayBuffer

/-- A tracker fed with the prefix of another and then with more bytes agrees with
the other one advanced over those bytes. Replaying the snapshot of a buffer that
keeps at least one chunk leaves a fresh terminal in the modes of the whole output
and shows exactly the text of the bytes that were retained. -/
theorem checkpoint_bisimulation :
    (∀ a b : Bytes,
      Agree (TerminalReplayModes.default.advance ((TerminalReplayModes.default.advance a).replayPrefix ++ b))
        (TerminalReplayModes.default.advance (a ++ b))) ∧
    ∀ capacity, 0 < capacity → ∀ chunks : List Bytes,
      let buffer := chunks.foldl ReplayBuffer.push (.new capacity)
      Agree (TerminalReplayModes.default.advance buffer.replayed)
        (TerminalReplayModes.default.advance chunks.flatten) ∧
      ∃ evicted, chunks = evicted ++ buffer.chunks.map Prod.snd ∧
        TerminalReplayModes.default.shown chunks.flatten =
          TerminalReplayModes.default.shown evicted.flatten ++
            TerminalReplayModes.default.shown buffer.replayed := by
  have hfront : ∀ a, TerminalReplayModes.Entered
      (TerminalReplayModes.default.advance (TerminalReplayModes.default.advance a).replayPrefix)
      (TerminalReplayModes.default.advance a) ∧
      TerminalReplayModes.default.shown (TerminalReplayModes.default.advance a).replayPrefix = [] :=
    fun a => TerminalReplayModes.entered_replayPrefix (TerminalReplayModes.Tracked.default.advance a)
  have hagree : ∀ a b, Agree
      (TerminalReplayModes.default.advance ((TerminalReplayModes.default.advance a).replayPrefix ++ b))
      (TerminalReplayModes.default.advance (a ++ b)) := by
    intro a b
    rw [TerminalReplayModes.advance_append, TerminalReplayModes.advance_append]
    exact ((hfront a).1.advance b).agree
  refine ⟨hagree, ?_⟩
  intro capacity hcapacity chunks buffer
  obtain ⟨hholds, hsame⟩ := ReplayBuffer.holds_pushAll capacity chunks
  obtain ⟨evicted, hsplit, hmodes⟩ := hholds.split
  by_cases hnil : chunks = []
  · subst hnil
    exact ⟨⟨rfl, rfl, rfl, rfl, rfl, rfl⟩, [], rfl, rfl⟩
  · have hreplayed : buffer.replayed =
        (TerminalReplayModes.default.advance evicted.flatten).replayPrefix ++
          (buffer.chunks.map Prod.snd).flatten := by
      rw [← hmodes]
      exact ReplayBuffer.replayed_eq (hholds.kept (hsame.symm ▸ hcapacity) hnil)
    have hchunks : chunks.flatten = evicted.flatten ++ (buffer.chunks.map Prod.snd).flatten := by
      rw [← flatten_append, ← hsplit]
    refine ⟨?_, evicted, hsplit, ?_⟩
    · rw [hreplayed, hchunks]
      exact hagree _ _
    · obtain ⟨hentered, hquiet⟩ := hfront evicted.flatten
      rw [hreplayed, hchunks, TerminalReplayModes.shown_append, TerminalReplayModes.shown_append,
        hquiet, hentered.shown]
      rfl

/-- `\x1b[?20` evicted and `04hok` retained: the replay switches bracketed paste on
and shows `ok`. -/
theorem halved_sequence_replayed :
    let buffer := [[0x1b, 0x5b, 0x3f, 0x32, 0x30], [0x30, 0x34, 0x68, 0x6f, 0x6b]].foldl
      ReplayBuffer.push (.new 1)
    (TerminalReplayModes.default.advance buffer.replayed).modes = [false, true, true, false, true] ∧
      TerminalReplayModes.default.shown buffer.replayed = [0x6f, 0x6b] := by
  intro buffer
  obtain ⟨hagree, evicted, hsplit, hshown⟩ := checkpoint_bisimulation.2 1 (by decide)
    [[0x1b, 0x5b, 0x3f, 0x32, 0x30], [0x30, 0x34, 0x68, 0x6f, 0x6b]]
  refine ⟨?_, ?_⟩
  · rw [hagree.modes]
    decide
  · decide

end Orkworksd.Runtime.Replay
