import Mathlib.Algebra.Order.Ring.Int
import Orkworksd.Lib.Run
import Orkworksd.Lib.Text
import Orkworksd.Lib.Utf8

/- The delivery of a session's first prompt into the editor of its harness:
   `strip_terminal_escapes` and `InitialEditorPrompt` of `runtime/session_runtime.rs`,
   with the hold on Claude Code's trust chooser.

   The chooser is looked for in the text of each chunk, stripped of its escapes from a
   fresh start, appended to a bounded tail; its teardown is looked for byte by byte over
   the whole stream. The two can disagree: about a chunk that ends inside an escape, about
   a marker that more than 240 visible bytes of the same chunk follow, about a teardown
   and a marker in one chunk, and about a marker that comes after the paste was written.
   `trust_chooser_not_answered` says that these are the only ways.

   Instants and durations are milliseconds. The evidence of work that an already
   delivered prompt collects from the output, and the channels its writes are
   acknowledged on, are left out: they decide what is reported, not what is typed. The
   result of a write is an argument of `writeCompleted`. -/
namespace Orkworksd.Runtime.InitialPrompt
open Orkworksd.Lib List

abbrev Bytes := List UInt8

/-! Visible text. -/

/-- The scalar value of a well-formed sequence. -/
def scalar (bytes : List Nat) : Char :=
  match bytes with
  | [a] => Char.ofNat a
  | [a, b] => Char.ofNat ((a - 0xc0) * 0x40 + (b - 0x80))
  | [a, b, c] => Char.ofNat (((a - 0xe0) * 0x40 + (b - 0x80)) * 0x40 + (c - 0x80))
  | [a, b, c, d] =>
    Char.ofNat ((((a - 0xf0) * 0x40 + (b - 0x80)) * 0x40 + (c - 0x80)) * 0x40 + (d - 0x80))
  | _ => Char.ofNat 0xfffd

/-- The characters of a well-formed text: a byte that is no continuation ends the
character before it. -/
def charsFrom : List Nat → Bytes → List Char
  | [], [] => []
  | held, [] => [scalar held]
  | [], b :: rest => charsFrom [b.toNat] rest
  | held, b :: rest =>
    if Utf8.isContinuation b then charsFrom (held ++ [b.toNat]) rest
    else scalar held :: charsFrom [b.toNat] rest

/-- `String::from_utf8_lossy(data).chars()`. -/
def lossyChars (data : Bytes) : List Char := charsFrom [] (Utf8.lossy data)

/-- Where the escape scanner stands. -/
inductive Scan where
  | text | escape | csi | osc | oscEscape
  deriving DecidableEq, Repr

section Strip

-- `char::to_lowercase`, from the Unicode tables
variable (toLowercase : Char → List Char)

def oscStep (c : Char) : Scan :=
  if c == '\x07' then .text else if c == '\x1b' then .oscEscape else .osc

/-- One character read by the loops of `strip_terminal_escapes`. -/
def scanStep : Scan → Char → Scan × List Char
  | .text, c =>
    if c == '\x1b' then (.escape, [])
    else if Text.isWhitespace c || Text.isControl c then (.text, [])
    else (.text, toLowercase c)
  | .escape, c => (if c == '[' then .csi else if c == ']' then .osc else .text, [])
  | .csi, c => (if 0x40 ≤ c.toNat && c.toNat ≤ 0x7e then .text else .csi, [])
  | .osc, c => (oscStep c, [])
  | .oscEscape, c => (if c == '\\' then .text else oscStep c, [])

def scan : Scan → List Char → List Char
  | _, [] => []
  | mode, c :: rest => (scanStep toLowercase mode c).2 ++ scan (scanStep toLowercase mode c).1 rest

def stripTerminalEscapes (data : Bytes) : List Char := scan toLowercase .text (lossyChars data)

end Strip

def claudeTrustPromptMarker : List Char := "itrustthisfolder".toList

def byteLength (text : List Char) : Nat := (text.map Char.utf8Size).sum

/-- The longest end of the text of at most 256 bytes, cut at a character. -/
def fitTail : List Char → List Char
  | [] => []
  | c :: text => if byteLength (c :: text) ≤ 256 then c :: text else fitTail text

/-- `screen_tail.contains(..)`. -/
def containsMarker (text : List Char) : Bool :=
  text.tails.any (fun rest => claudeTrustPromptMarker.isPrefixOf rest)

/-! The prompt. -/

def initialEditorTimeout : Nat := 10000
def initialEditorSettle : Nat := 200

inductive InitialEditorPromptPhase where
  | waiting (due : Nat)
  | writingPaste
  | submit (due : Nat)
  | complete
  deriving DecidableEq, Repr

structure InitialEditorPrompt where
  prompt : String
  phase : InitialEditorPromptPhase
  /-- The last eight bytes. -/
  marker : Bytes
  pasteEnabled : Bool
  pasteSettle : Nat
  timeout : Nat
  holdForTrustPrompt : Bool
  awaitingTrustDecision : Bool
  screenTail : List Char
  deriving DecidableEq, Repr

/-- `\x1b[?2004h` and `\x1b[?2004l`, bracketed paste on and off. -/
def pasteEnable : Bytes := [0x1b, 0x5b, 0x3f, 0x32, 0x30, 0x30, 0x34, 0x68]
def pasteDisable : Bytes := [0x1b, 0x5b, 0x3f, 0x32, 0x30, 0x30, 0x34, 0x6c]

namespace InitialEditorPrompt

/-- `new(..).with_trust_prompt_hold()`. -/
def held (prompt : String) (now pasteSettle : Nat) : InitialEditorPrompt :=
  { prompt
    phase := .waiting (now + initialEditorTimeout)
    marker := List.replicate 8 0
    pasteEnabled := false
    pasteSettle
    timeout := now + initialEditorTimeout
    holdForTrustPrompt := true
    awaitingTrustDecision := false
    screenTail := [] }

def observeTrustPrompt (toLowercase : Char → List Char) (data : Bytes)
    (s : InitialEditorPrompt) : InitialEditorPrompt :=
  let tail := fitTail (s.screenTail ++ stripTerminalEscapes toLowercase data)
  { s with
    screenTail := tail
    awaitingTrustDecision := containsMarker tail || s.awaitingTrustDecision }

/-- One byte of the loop of `observe_output`. -/
def observeByte (now : Nat) (s : InitialEditorPrompt) (byte : UInt8) : InitialEditorPrompt :=
  let s := { s with marker := s.marker.drop 1 ++ [byte] }
  if s.marker = pasteEnable then { s with pasteEnabled := true }
  else if s.marker = pasteDisable then
    if s.awaitingTrustDecision then
      -- the chooser tore down: the real editor gets a fresh startup bound
      { s with
        pasteEnabled := false
        awaitingTrustDecision := false
        screenTail := []
        timeout := now + initialEditorTimeout }
    else { s with pasteEnabled := false }
  else s

def observeOutput (toLowercase : Char → List Char) (data : Bytes) (now : Nat)
    (s : InitialEditorPrompt) : InitialEditorPrompt :=
  match s.phase with
  | .waiting _ =>
    let looked := if s.holdForTrustPrompt then s.observeTrustPrompt toLowercase data else s
    let read := data.foldl (observeByte now) looked
    { read with
      phase := .waiting
        (if read.pasteEnabled then min (now + read.pasteSettle) read.timeout else read.timeout) }
  | _ => s

def deadline (s : InitialEditorPrompt) : Option Nat :=
  if s.awaitingTrustDecision then none
  else
    match s.phase with
    | .waiting due => some due
    | .submit due => some due
    | _ => none

/-- `next_command`: the prompt after it and the input it types. -/
def nextCommand (now : Nat) (outputPending : Bool) (s : InitialEditorPrompt) :
    InitialEditorPrompt × Option String :=
  if s.awaitingTrustDecision then (s, none)
  else if outputPending && decide (now < s.timeout) then (s, none)
  else
    match s.deadline with
    | none => (s, none)
    | some due =>
      if now < due then (s, none)
      else
        match s.phase with
        | .waiting _ =>
          if s.pasteEnabled then
            ({ s with phase := .writingPaste }, some ("\x1b[200~" ++ s.prompt ++ "\x1b[201~"))
          else ({ s with phase := .complete }, some (s.prompt ++ "\r"))
        | .submit _ => ({ s with phase := .complete }, some "\r")
        | _ => (s, none)

/-- `write_completed`, with the result of the paste. -/
def writeCompleted (now : Nat) (pasted : Bool) (s : InitialEditorPrompt) : InitialEditorPrompt :=
  match s.phase with
  | .writingPaste =>
    { s with phase := if pasted then .submit (now + initialEditorSettle) else .complete }
  | _ => s

end InitialEditorPrompt

/-! Runs, with the stream the terminal has shown so far. -/

inductive Event where
  | observe (data : Bytes) (now : Nat)
  | next (now : Nat) (outputPending : Bool)
  | written (now : Nat) (pasted : Bool)
  deriving DecidableEq, Repr

structure World where
  initial : InitialEditorPrompt
  stream : Bytes
  deriving DecidableEq, Repr

variable {stream : Bytes}

section Runs

variable (toLowercase : Char → List Char)

variable {data : Bytes} {s : InitialEditorPrompt}

def World.after (w : World) : Event → World
  | .observe data now =>
    { initial := w.initial.observeOutput toLowercase data now, stream := w.stream ++ data }
  | .next now outputPending => { w with initial := (w.initial.nextCommand now outputPending).1 }
  | .written now pasted => { w with initial := w.initial.writeCompleted now pasted }

/-- The visible text of the stream comes to end with the marker at its last byte. -/
def MarkerEnds (stream : Bytes) : Prop :=
  claudeTrustPromptMarker <:+ stripTerminalEscapes toLowercase stream
    ∧ ¬ claudeTrustPromptMarker <:+ stripTerminalEscapes toLowercase stream.dropLast

/-- A paste-disable sequence is completed by a byte of `later`. -/
def DisabledIn (stream later : Bytes) : Prop :=
  ∃ read rest, later = read ++ rest ∧ read ≠ [] ∧ pasteDisable <:+ stream ++ read

/-- The stream shows the marker and no paste-disable after it. -/
def MarkerStands (stream : Bytes) : Prop :=
  ∃ shown later, stream = shown ++ later ∧ MarkerEnds toLowercase shown ∧ ¬ DisabledIn shown later

/-- The marker comes to stand with a byte of this chunk. -/
def MarkerArrives (stream data : Bytes) : Prop :=
  ∃ shown later, stream ++ data = shown ++ later ∧ stream.length < shown.length
    ∧ MarkerEnds toLowercase shown ∧ ¬ DisabledIn shown later

/-- A chunk with which the marker comes to stand finds the prompt delivered, or still
waiting with the marker in the bounded tail and no paste-disable in the chunk. -/
def Observable (w : World) (data : Bytes) : Prop :=
  MarkerArrives toLowercase w.stream data →
    w.initial.phase = .complete
      ∨ ((∃ due, w.initial.phase = .waiting due)
        ∧ ¬ DisabledIn w.stream data
        ∧ (w.initial.awaitingTrustDecision = true
          ∨ containsMarker
              (fitTail (w.initial.screenTail ++ stripTerminalEscapes toLowercase data)) = true))

/-- A step of the runtime on a chunk, if it is one, that is `Observable`. -/
def Step (w : World) (event : Event) (t : World) : Prop :=
  t = w.after toLowercase event
    ∧ ∀ data now, event = .observe data now → Observable toLowercase w data

/-! The invariant: a marker that stands holds the prompt, or found it delivered. -/

/-- The window over the last bytes of the stream. -/
def lastBytes (stream : Bytes) : Bytes :=
  (List.replicate 8 0 ++ stream).drop stream.length

theorem lastBytes_append (stream : Bytes) (byte : UInt8) :
    lastBytes (stream ++ [byte]) = (lastBytes stream).drop 1 ++ [byte] := by
  have fits : stream.length + 1 ≤ (List.replicate 8 (0 : UInt8) ++ stream).length := by
    simp
  rw [lastBytes, ← append_assoc, length_append, length_singleton,
    drop_append_of_le_length fits, lastBytes, drop_drop]

theorem pasteDisable_suffix (h : lastBytes stream = pasteDisable) :
    pasteDisable <:+ stream := by
  have suffix : pasteDisable <:+ List.replicate 8 0 ++ stream := h ▸ drop_suffix _ _
  rcases Nat.lt_or_ge stream.length 8 with short | long
  · -- a shorter stream leaves a zero of the padding in the window
    exfalso
    have head : (lastBytes stream)[0]? = some 0 := by
      rw [lastBytes, List.getElem?_drop, Nat.add_zero, List.getElem?_append_left (by simpa using short),
        List.getElem?_replicate, if_pos short]
    rw [h] at head
    exact absurd head (by decide)
  · exact suffix_of_suffix_length_le suffix (suffix_append _ _) long

/-- The bytes of a chunk in which no paste-disable is completed keep the hold, and the
window follows the stream. -/
theorem foldl_observeByte (now : Nat) {stream data : Bytes} {s : InitialEditorPrompt}
    (window : s.marker = lastBytes stream) :
    (data.foldl (InitialEditorPrompt.observeByte now) s).marker = lastBytes (stream ++ data)
      ∧ (data.foldl (InitialEditorPrompt.observeByte now) s).holdForTrustPrompt
        = s.holdForTrustPrompt
      ∧ (¬ DisabledIn stream data → s.awaitingTrustDecision = true →
        (data.foldl (InitialEditorPrompt.observeByte now) s).awaitingTrustDecision = true) := by
  induction data generalizing stream s with
  | nil => simp [window]
  | cons byte data ih =>
    have moved : (s.observeByte now byte).marker = lastBytes (stream ++ [byte]) := by
      rw [lastBytes_append, ← window]
      unfold InitialEditorPrompt.observeByte
      dsimp only
      split
      · rfl
      · split
        · split <;> rfl
        · rfl
    have hold : (s.observeByte now byte).holdForTrustPrompt = s.holdForTrustPrompt := by
      unfold InitialEditorPrompt.observeByte
      dsimp only
      split
      · rfl
      · split
        · split <;> rfl
        · rfl
    obtain ⟨rest, kept, awaiting⟩ := ih moved
    rw [foldl_cons]
    refine ⟨?_, kept.trans hold, fun quiet waits => awaiting ?_ ?_⟩
    · rw [rest, append_assoc, singleton_append]
    · rintro ⟨read, after, rfl, -, suffix⟩
      refine quiet ⟨byte :: read, after, rfl, by simp, ?_⟩
      rwa [append_assoc, singleton_append] at suffix
    · have open_ : lastBytes (stream ++ [byte]) ≠ pasteDisable := fun shown =>
        quiet ⟨[byte], data, rfl, by simp, pasteDisable_suffix shown⟩
      rw [lastBytes_append, ← window] at open_
      unfold InitialEditorPrompt.observeByte
      dsimp only
      rw [if_neg open_]
      split <;> exact waits

/-- A marker that stands after a chunk arrived with it, or stood before it and the chunk
completes no paste-disable. -/
theorem markerStands_append (stands : MarkerStands toLowercase (stream ++ data)) :
    MarkerArrives toLowercase stream data
      ∨ (MarkerStands toLowercase stream ∧ ¬ DisabledIn stream data) := by
  obtain ⟨shown, later, split, ends, quiet⟩ := stands
  rcases Nat.lt_or_ge stream.length shown.length with inside | before
  · exact .inl ⟨shown, later, split, inside, ends, quiet⟩
  · obtain ⟨between, rfl, rfl⟩ : ∃ between, stream = shown ++ between ∧ later = between ++ data := by
      rcases append_eq_append_iff.mp split with ⟨extra, longer, rest⟩ | split
      · have none_ : extra = [] := by
          rw [longer, length_append] at before
          exact eq_nil_of_length_eq_zero (by omega)
        subst none_
        exact ⟨[], by simp [longer], by simpa using rest.symm⟩
      · exact split
    refine .inr ⟨⟨shown, between, rfl, ends, ?_⟩, ?_⟩
    · rintro ⟨read, rest, rfl, some_, suffix⟩
      exact quiet ⟨read, rest ++ data, by simp, some_, suffix⟩
    · rintro ⟨read, rest, rfl, some_, suffix⟩
      refine quiet ⟨between ++ read, rest, by simp, by simp [some_], ?_⟩
      rwa [append_assoc] at suffix

structure Holds (w : World) : Prop where
  hold : w.initial.holdForTrustPrompt = true
  window : ∀ due, w.initial.phase = .waiting due → w.initial.marker = lastBytes w.stream
  waits : w.initial.awaitingTrustDecision = true → ∃ due, w.initial.phase = .waiting due
  stands : MarkerStands toLowercase w.stream →
    w.initial.awaitingTrustDecision = true ∨ w.initial.phase = .complete

theorem nextCommand_silent (now : Nat) (outputPending : Bool)
    (h : s.awaitingTrustDecision = true ∨ s.phase = .complete) :
    s.nextCommand now outputPending = (s, none) := by
  unfold InitialEditorPrompt.nextCommand
  split
  · rfl
  · next free =>
    have delivered := h.resolve_left free
    split
    · rfl
    · simp [InitialEditorPrompt.deadline, free, delivered]

theorem nextCommand_free (now : Nat) (outputPending : Bool) (free : s.awaitingTrustDecision = false) :
    (s.nextCommand now outputPending).1.awaitingTrustDecision = false
      ∧ (s.nextCommand now outputPending).1.holdForTrustPrompt = s.holdForTrustPrompt
      ∧ (s.nextCommand now outputPending).1.marker = s.marker
      ∧ (∀ due, (s.nextCommand now outputPending).1.phase = .waiting due → s.phase = .waiting due) := by
  unfold InitialEditorPrompt.nextCommand
  rw [if_neg (by simp [free])]
  split
  · exact ⟨free, rfl, rfl, fun _ h => h⟩
  · split
    · exact ⟨free, rfl, rfl, fun _ h => h⟩
    · split
      · exact ⟨free, rfl, rfl, fun _ h => h⟩
      · split
        · split
          · exact ⟨free, rfl, rfl, fun _ h => (by cases h)⟩
          · exact ⟨free, rfl, rfl, fun _ h => (by cases h)⟩
        · exact ⟨free, rfl, rfl, fun _ h => (by cases h)⟩
        · exact ⟨free, rfl, rfl, fun _ h => h⟩

variable {toLowercase} {w : World}

section
variable (holds : Holds toLowercase w)
include holds

theorem Holds.next (now : Nat) (outputPending : Bool) :
    Holds toLowercase (w.after toLowercase (.next now outputPending)) := by
  by_cases silent : w.initial.awaitingTrustDecision = true ∨ w.initial.phase = .complete
  · have same : w.after toLowercase (.next now outputPending) = w := by
      rw [World.after, nextCommand_silent now outputPending silent]
    rw [same]
    exact holds
  · have free : w.initial.awaitingTrustDecision = false :=
      Bool.eq_false_iff.mpr (fun h => silent (.inl h))
    obtain ⟨freed, hold, marker, phase⟩ := nextCommand_free now outputPending free
    refine ⟨hold.trans holds.hold, fun due h => marker.trans (holds.window due (phase due h)),
      fun h => ?_, fun h => absurd (holds.stands h) silent⟩
    rw [World.after, freed] at h
    cases h

theorem Holds.written (now : Nat) (pasted : Bool) :
    Holds toLowercase (w.after toLowercase (.written now pasted)) := by
  cases phase : w.initial.phase with
  | writingPaste =>
    have free : w.initial.awaitingTrustDecision ≠ true := fun h => by
      obtain ⟨due, waiting⟩ := holds.waits h
      rw [phase] at waiting
      cases waiting
    have written : w.after toLowercase (.written now pasted) =
        { w with
          initial := { w.initial with
            phase := if pasted then .submit (now + initialEditorSettle) else .complete } } := by
      rw [World.after, InitialEditorPrompt.writeCompleted, phase]
    rw [written]
    refine ⟨holds.hold, fun due h => ?_, fun h => absurd h free, fun h => ?_⟩
    · dsimp only at h
      split at h <;> cases h
    · rcases holds.stands h with waits | delivered
      · exact .inl waits
      · rw [phase] at delivered
        cases delivered
  | waiting due =>
    have same : w.after toLowercase (.written now pasted) = w := by
      rw [World.after, InitialEditorPrompt.writeCompleted, phase]
    rw [same]
    exact holds
  | submit due =>
    have same : w.after toLowercase (.written now pasted) = w := by
      rw [World.after, InitialEditorPrompt.writeCompleted, phase]
    rw [same]
    exact holds
  | complete =>
    have same : w.after toLowercase (.written now pasted) = w := by
      rw [World.after, InitialEditorPrompt.writeCompleted, phase]
    rw [same]
    exact holds

/-- A chunk that is not looked at: the prompt is being written or was delivered. -/
theorem Holds.observe_ignored (now : Nat) (observable : Observable toLowercase w data)
    (ignored : ∀ due, w.initial.phase ≠ .waiting due) :
    Holds toLowercase (w.after toLowercase (.observe data now)) := by
  have same : w.initial.observeOutput toLowercase data now = w.initial := by
    unfold InitialEditorPrompt.observeOutput
    split
    · next due phase => exact absurd phase (ignored due)
    · rfl
  rw [World.after, same]
  refine ⟨holds.hold, fun due h => absurd h (ignored due), holds.waits, fun h => ?_⟩
  rcases markerStands_append toLowercase h with arrives | ⟨stood, -⟩
  · rcases observable arrives with delivered | ⟨⟨due, waiting⟩, -⟩
    · exact .inr delivered
    · exact absurd waiting (ignored due)
  · exact holds.stands stood

theorem Holds.observe_waiting (now : Nat) (observable : Observable toLowercase w data) {due : Nat}
    (waiting : w.initial.phase = .waiting due) :
    Holds toLowercase (w.after toLowercase (.observe data now)) := by
  have window : (w.initial.observeTrustPrompt toLowercase data).marker = lastBytes w.stream :=
    holds.window due waiting
  obtain ⟨read, hold, awaiting⟩ := @foldl_observeByte now w.stream data _ window
  rw [World.after, InitialEditorPrompt.observeOutput, waiting]
  simp only [holds.hold, if_true]
  refine ⟨hold.trans holds.hold, fun _ _ => read, fun _ => ⟨_, rfl⟩, fun h => .inl ?_⟩
  rcases markerStands_append toLowercase h with arrives | ⟨stood, quiet⟩
  · rcases observable arrives with delivered | ⟨-, quiet, seen⟩
    · rw [waiting] at delivered
      cases delivered
    · refine awaiting quiet ?_
      unfold InitialEditorPrompt.observeTrustPrompt
      rcases seen with held | found
      · simp [held]
      · simp [found]
  · refine awaiting quiet ?_
    rcases holds.stands stood with held | delivered
    · simp [InitialEditorPrompt.observeTrustPrompt, held]
    · rw [waiting] at delivered
      cases delivered

theorem Holds.step {event : Event} {t : World}
    (step : Step toLowercase w event t) : Holds toLowercase t := by
  obtain ⟨rfl, observable⟩ := step
  cases event with
  | next now outputPending => exact holds.next now outputPending
  | written now pasted => exact holds.written now pasted
  | observe data now =>
    have observable := observable data now rfl
    cases phase : w.initial.phase with
    | waiting due => exact holds.observe_waiting now observable phase
    | _ =>
      refine holds.observe_ignored now observable (fun due waiting => ?_)
      rw [phase] at waiting
      cases waiting

end

end Runs

/-- A prompt with the trust hold, before any output. -/
def World.launched (prompt : String) (now pasteSettle : Nat) : World :=
  { initial := .held prompt now pasteSettle, stream := [] }

theorem launched_holds (toLowercase : Char → List Char) (prompt : String) (now pasteSettle : Nat) :
    Holds toLowercase (World.launched prompt now pasteSettle) := by
  refine ⟨rfl, fun _ _ => rfl, fun h => (by cases h), ?_⟩
  rintro ⟨shown, later, split, ⟨ends, -⟩, -⟩
  obtain ⟨rfl, -⟩ := append_eq_nil_iff.mp split.symm
  exact absurd (eq_nil_of_suffix_nil ends) (by decide)

/-- Whatever is observed and whenever a command is asked for, as long as every chunk is
`Observable`: a stream that shows the marker with no paste-disable after it gets no input. -/
theorem trust_chooser_not_answered (toLowercase : Char → List Char) (prompt : String)
    (start pasteSettle : Nat) {events : List Event} {w : World}
    (run : Run (Step toLowercase) (World.launched prompt start pasteSettle) events w)
    (stands : MarkerStands toLowercase w.stream) (now : Nat) (outputPending : Bool) :
    (w.initial.nextCommand now outputPending).2 = none := by
  have holds := run.invariant (Holds toLowercase) (launched_holds toLowercase prompt start pasteSettle)
    (fun holds step => holds.step step)
  rw [nextCommand_silent now outputPending (holds.stands stands)]

/-! Claude Code's chooser, in one chunk and cut inside a cursor movement. -/

namespace Chooser

/-- `char::to_lowercase` on ASCII. -/
def lower (c : Char) : List Char := [c.toLower]

def screen : Bytes := "\x1b[?2004hYes, I\x1b[1Ctrust\x1b[1Cthis\x1b[1".toUTF8.toList
def rest : Bytes := "Cfolder".toUTF8.toList

theorem disabledIn_inits {later : Bytes} (h : DisabledIn stream later) :
    ∃ read ∈ later.inits, read ≠ [] ∧ pasteDisable <:+ stream ++ read := by
  obtain ⟨read, after, rfl, some_, suffix⟩ := h
  exact ⟨read, (mem_inits _ _).mpr (prefix_append _ _), some_, suffix⟩

theorem screen_stands : MarkerStands lower (screen ++ rest) := by
  refine ⟨screen ++ rest, [], by simp, ⟨by decide +kernel, by decide +kernel⟩, ?_⟩
  rintro ⟨read, after, none_, some_, -⟩
  exact some_ (append_eq_nil_iff.mp none_.symm).1

/-- The whole chooser in one chunk holds the prompt. -/
theorem chooser_holds_prompt :
    (((World.launched "find new work" 0 1500).after lower
      (.observe (screen ++ rest) 100)).initial.nextCommand 2000 false).2 = none := by
  have step : Step lower (World.launched "find new work" 0 1500) (.observe (screen ++ rest) 100)
      ((World.launched "find new work" 0 1500).after lower (.observe (screen ++ rest) 100)) := by
    refine ⟨rfl, fun data now same => ?_⟩
    cases same
    intro _
    refine .inr ⟨⟨_, rfl⟩, fun disabled => ?_, .inr (by decide +kernel)⟩
    exact absurd (disabledIn_inits disabled) (by decide +kernel)
  exact trust_chooser_not_answered lower "find new work" 0 1500 (.next .start step) screen_stands
    2000 false

/-- The same bytes cut inside an escape: the marker stands, and the paste is typed into the
chooser. -/
theorem cut_chooser_answered :
    MarkerStands lower (((World.launched "find new work" 0 1500).after lower
        (.observe screen 100)).after lower (.observe rest 101)).stream
      ∧ ((((World.launched "find new work" 0 1500).after lower
        (.observe screen 100)).after lower (.observe rest 101)).initial.nextCommand 2000 false).2
        = some "\x1b[200~find new work\x1b[201~" :=
  ⟨screen_stands, by decide +kernel⟩

end Chooser

end Orkworksd.Runtime.InitialPrompt
