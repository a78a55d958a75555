import Mathlib.Tactic.SplitIfs
import Orkworksd.Lib.Utf8

/- The reader of the status frames a Codex terminal writes among its output
   (`codex_terminal_status.rs`): `ESC ] 7501 ; ... ` up to BEL or `ESC \`. The reader
   takes one byte at a time and keeps its mode between two chunks.

   `Frame` and `Open` are not in the source. A `Frame` is an operating system command as a
   terminal writes it, and a byte string is `Open` when it ends no control string. -/
namespace Orkworksd.Runtime.TerminalStatus
open List

open Orkworksd.Lib

abbrev Bytes := List UInt8

inductive Status where
  | working | blocked | idle | failed | unknown
  deriving DecidableEq, Repr

inductive Mode where
  | text | escape | osc | skip
  deriving DecidableEq, Repr

structure Reader where
  mode : Mode
  payload : Bytes
  escaped : Bool
  deriving DecidableEq, Repr

def Reader.default : Reader := ⟨.text, [], false⟩

def bel : UInt8 := 7
def esc : UInt8 := 0x1b
def backslash : UInt8 := 0x5c

/-- The bytes after ESC that begin a control string the reader passes over:
`P`, `X`, `^` and `_`. -/
def skipped : List UInt8 := [0x50, 0x58, 0x5e, 0x5f]

/-- `]`. -/
def oscIntroducer : UInt8 := 0x5d

def maxPayloadBytes : Nat := 256

/-- `str::split_once`, on the bytes of the text. -/
def splitOnce (separator : UInt8) (text : Bytes) : Option (Bytes × Bytes) :=
  match text.dropWhile (· != separator) with
  | [] => none
  | _ :: value => some (text.takeWhile (· != separator), value)

/-- The three slots a status payload may fill. -/
structure Slots where
  state : Option Bytes
  app : Option Bytes
  kind : Option Bytes
  deriving DecidableEq

/-- One `key=value` field: an unknown key and a key given twice are refused. -/
def Slots.fill (slots : Slots) (field : Bytes) : Option Slots := do
  let (key, value) ← splitOnce 0x3d field
  if key = "state".toUTF8.toList then
    if slots.state.isSome then none else some { slots with state := some value }
  else if key = "app".toUTF8.toList then
    if slots.app.isSome then none else some { slots with app := some value }
  else if key = "kind".toUTF8.toList then
    if slots.kind.isSome then none else some { slots with kind := some value }
  else none

/-- `classify`, after the prefix. -/
def classifyFields (text : Bytes) : Option Status := do
  if text = "state=clear".toUTF8.toList then
    return .unknown
  let slots ← (text.splitOn 0x3a).foldlM Slots.fill ⟨none, none, none⟩
  if slots.app ≠ some "codex".toUTF8.toList then
    none
  else if slots.state = some "blocked".toUTF8.toList then
    if slots.kind = some "permission".toUTF8.toList ∨ slots.kind = some "question".toUTF8.toList ∨
        slots.kind = some "auth".toUTF8.toList then
      return .blocked
    else
      return .unknown
  else if slots.kind.isSome then
    none
  else
    let state ← slots.state
    if state = "working".toUTF8.toList then
      return .working
    else if state = "idle".toUTF8.toList ∨ state = "done".toUTF8.toList then
      return .idle
    else if state = "error".toUTF8.toList then
      return .failed
    else
      return .unknown

def classify (payload : Bytes) : Option Status :=
  if Utf8.decode [] payload ≠ ⟨payload, []⟩ then none
  else ("7501;".toUTF8.toList.isPrefixOf? payload).bind classifyFields

namespace Reader

/-- The body of the loop of `feed`. -/
def step (r : Reader) (byte : UInt8) : Reader × List Status :=
  match r.mode with
  | .text => (if byte = esc then { r with mode := .escape } else r, [])
  | .escape =>
    if byte = oscIntroducer then (⟨.osc, [], false⟩, [])
    else if byte ∈ skipped then ({ r with mode := .skip, escaped := false }, [])
    else if byte = esc then (r, [])
    else ({ r with mode := .text }, [])
  | _ =>
    if byte = bel ∨ (r.escaped = true ∧ byte = backslash) then
      ({ r with mode := .text, escaped := false },
        if r.mode = .osc then (classify r.payload).toList else [])
    else
      -- An ESC that ends nothing turns the rest of the string into text to pass over.
      let r := if r.escaped = true then { r with mode := .skip, escaped := false } else r
      if byte = esc then ({ r with escaped := true }, [])
      else if r.mode = .osc then
        if r.payload.length = maxPayloadBytes then ({ r with mode := .skip, payload := [] }, [])
        else ({ r with payload := r.payload ++ [byte] }, [])
      else (r, [])

def feed : Reader → Bytes → Reader × List Status
  | r, [] => (r, [])
  | r, byte :: bytes =>
    let first := r.step byte
    let rest := first.1.feed bytes
    (rest.1, first.2 ++ rest.2)

/-- The output of a terminal, chunk by chunk. -/
def feedChunks : Reader → List Bytes → Reader × List Status
  | r, [] => (r, [])
  | r, chunk :: chunks =>
    let first := r.feed chunk
    let rest := first.1.feedChunks chunks
    (rest.1, first.2 ++ rest.2)

end Reader

/-! ## Frames -/

inductive Terminator where
  | bell | stringTerminator
  deriving DecidableEq, Repr

def Terminator.bytes : Terminator → Bytes
  | .bell => [bel]
  | .stringTerminator => [esc, backslash]

/-- A whole operating system command: its payload holds neither BEL nor ESC. -/
structure Frame where
  payload : Bytes
  terminator : Terminator
  noBell : bel ∉ payload
  noEscape : esc ∉ payload

def Frame.bytes (f : Frame) : Bytes :=
  esc :: oscIntroducer :: (f.payload ++ f.terminator.bytes)

/-- The bytes end no control string. -/
def Open (body : Bytes) : Prop := bel ∉ body ∧ ¬ [esc, backslash] <:+: body

namespace Reader

theorem feed_cons (r : Reader) (byte : UInt8) (bytes : Bytes) :
    r.feed (byte :: bytes) =
      (((r.step byte).1.feed bytes).1, (r.step byte).2 ++ ((r.step byte).1.feed bytes).2) := rfl

theorem feed_append (r : Reader) (x y : Bytes) :
    r.feed (x ++ y) = (((r.feed x).1.feed y).1, (r.feed x).2 ++ ((r.feed x).1.feed y).2) := by
  induction x generalizing r with
  | nil => rfl
  | cons byte x ih =>
    rw [cons_append, feed_cons, feed_cons, ih]
    simp only [append_assoc]

theorem feedChunks_eq (r : Reader) (chunks : List Bytes) :
    r.feedChunks chunks = r.feed chunks.flatten := by
  induction chunks generalizing r with
  | nil => rfl
  | cons chunk chunks ih =>
    rw [flatten_cons, feed_append, ← ih]
    rfl

/-- Outside a control string nothing is pending. -/
def Settled (r : Reader) : Prop := r.mode = .text ∨ r.mode = .escape → r.escaped = false

theorem settled_default : Reader.default.Settled := fun _ => rfl

variable {r : Reader}

theorem settled_step (h : r.Settled) (byte : UInt8) : (r.step byte).1.Settled := by
  obtain ⟨mode, payload, escaped⟩ := r
  cases mode with
  | text =>
    have hfalse : escaped = false := h (Or.inl rfl)
    subst hfalse
    by_cases hesc : byte = esc
    · simp [step, hesc, Settled]
    · simp [step, hesc, Settled]
  | escape =>
    have hfalse : escaped = false := h (Or.inr rfl)
    subst hfalse
    simp only [step]
    split_ifs
    all_goals simp [Settled]
  | osc =>
    simp only [step]
    split_ifs
    all_goals simp_all [Settled]
  | skip =>
    simp only [step]
    split_ifs
    all_goals simp_all [Settled]

theorem settled_feed (h : r.Settled) (bytes : Bytes) : (r.feed bytes).1.Settled := by
  induction bytes generalizing r with
  | nil => exact h
  | cons byte bytes ih => exact ih (settled_step h byte)

theorem step_bel (h : r.Settled) :
    (r.step bel).1.mode = .text ∧ (r.step bel).1.escaped = false := by
  obtain ⟨mode, payload, escaped⟩ := r
  cases mode with
  | text => exact ⟨rfl, h (Or.inl rfl)⟩
  | escape => exact ⟨rfl, h (Or.inr rfl)⟩
  | osc => exact ⟨rfl, rfl⟩
  | skip => exact ⟨rfl, rfl⟩

/-- The reader is in a control string. -/
def Inside (r : Reader) : Prop := r.mode = .osc ∨ r.mode = .skip

theorem step_inside (h : r.Inside) (byte : UInt8) (hbell : byte ≠ bel)
    (hst : r.escaped = true → byte ≠ backslash) : (r.step byte).2 = [] ∧ (r.step byte).1.Inside ∧
      ((r.step byte).1.escaped = true ↔ byte = esc) := by
  obtain ⟨mode, payload, escaped⟩ := r
  have hends : ¬ (byte = bel ∨ (escaped = true ∧ byte = backslash)) := by
    intro hends
    cases hends with
    | inl hbel => exact hbell hbel
    | inr hpair => exact hst hpair.1 hpair.2
  cases mode with
  | text => cases h with
    | inl h => exact Mode.noConfusion h
    | inr h => exact Mode.noConfusion h
  | escape => cases h with
    | inl h => exact Mode.noConfusion h
    | inr h => exact Mode.noConfusion h
  | osc =>
    simp only [step, if_neg hends]
    cases escaped with
    | false =>
      split_ifs
      all_goals simp_all [Inside]
    | true =>
      split_ifs
      all_goals simp_all [Inside]
  | skip =>
    simp only [step, if_neg hends]
    cases escaped with
    | false =>
      split_ifs
      all_goals simp_all [Inside]
    | true =>
      split_ifs
      all_goals simp_all [Inside]

end Reader

/-! ## Open strings -/

variable {body : Bytes}

variable {byte : UInt8}

theorem Open.tail (h : Open (byte :: body)) : Open body := by
  refine ⟨fun hbel => h.1 (mem_cons_of_mem byte hbel), fun hpair => h.2 ?_⟩
  exact hpair.trans (infix_cons (infix_refl body))

theorem Open.head (h : Open (byte :: body)) : byte ≠ bel := by
  intro heq
  exact h.1 (heq ▸ mem_cons_self)

theorem Open.second (h : Open (esc :: body)) : body.head? ≠ some backslash := by
  intro hhead
  obtain ⟨rest, rfl⟩ := List.head?_eq_some_iff.mp hhead
  exact h.2 ⟨[], rest, rfl⟩

namespace Reader

variable {r : Reader}

theorem feed_open (h : r.Inside) (hbody : Open body)
    (hst : r.escaped = true → body.head? ≠ some backslash) :
    (r.feed body).2 = [] ∧ (r.feed body).1.Inside := by
  induction body generalizing r with
  | nil => exact ⟨rfl, h⟩
  | cons byte body ih =>
    have hstep := step_inside h byte hbody.head (fun hescaped heq => hst hescaped (heq ▸ rfl))
    have hrest := ih hstep.2.1 hbody.tail (fun hescaped => by
      rw [hstep.2.2.mp hescaped] at hbody
      exact hbody.second)
    rw [feed_cons]
    exact ⟨by rw [hstep.1, hrest.1]; rfl, hrest.2⟩

variable (payload : Bytes)

variable {bytes : Bytes}

theorem feed_skip (hbell : bel ∉ bytes) (hesc : esc ∉ bytes) :
    (Reader.feed ⟨.skip, payload, false⟩ bytes).1 = ⟨.skip, payload, false⟩ ∧
      (Reader.feed ⟨.skip, payload, false⟩ bytes).2 = [] := by
  induction bytes with
  | nil => exact ⟨rfl, rfl⟩
  | cons byte bytes ih =>
    have hb : byte ≠ bel := fun h => hbell (h ▸ mem_cons_self)
    have he : byte ≠ esc := fun h => hesc (h ▸ mem_cons_self)
    have hstep : Reader.step ⟨.skip, payload, false⟩ byte = (⟨.skip, payload, false⟩, []) := by
      simp [step, hb, he]
    rw [feed_cons, hstep]
    exact ih (fun h => hbell (mem_cons_of_mem byte h)) (fun h => hesc (mem_cons_of_mem byte h))

/-- The payload is kept up to its limit; one byte more turns the string into text to
pass over. -/
theorem feed_payload (kept : Bytes) (hbell : bel ∉ bytes) (hesc : esc ∉ bytes)
    (hkept : kept.length ≤ maxPayloadBytes) : Reader.feed ⟨.osc, kept, false⟩ bytes =
      (if (kept ++ bytes).length ≤ maxPayloadBytes then ⟨.osc, kept ++ bytes, false⟩
        else ⟨.skip, [], false⟩, []) := by
  induction bytes generalizing kept with
  | nil => rw [append_nil, if_pos hkept]; rfl
  | cons byte bytes ih =>
    have hb : byte ≠ bel := fun h => hbell (h ▸ mem_cons_self)
    have he : byte ≠ esc := fun h => hesc (h ▸ mem_cons_self)
    have hbell' : bel ∉ bytes := fun h => hbell (mem_cons_of_mem byte h)
    have hesc' : esc ∉ bytes := fun h => hesc (mem_cons_of_mem byte h)
    rw [feed_cons]
    by_cases hfull : kept.length = maxPayloadBytes
    · have hstep : Reader.step ⟨.osc, kept, false⟩ byte = (⟨.skip, [], false⟩, []) := by
        simp [step, hb, he, hfull]
      have hlong : ¬ (kept ++ byte :: bytes).length ≤ maxPayloadBytes := by
        rw [length_append, length_cons]
        omega
      rw [hstep, if_neg hlong]
      exact Prod.ext (feed_skip [] hbell' hesc').1 (feed_skip [] hbell' hesc').2
    · have hstep : Reader.step ⟨.osc, kept, false⟩ byte = (⟨.osc, kept ++ [byte], false⟩, []) := by
        simp [step, hb, he, hfull]
      have hroom : (kept ++ [byte]).length ≤ maxPayloadBytes := by
        rw [length_append, length_singleton]
        omega
      rw [hstep, ih (kept ++ [byte]) hbell' hesc' hroom, append_assoc, singleton_append]
      rfl

theorem feed_introducer (h : r.mode = .text) (bytes : Bytes) :
    r.feed (esc :: oscIntroducer :: bytes) = Reader.feed ⟨.osc, [], false⟩ bytes := by
  have hfirst : r.step esc = ({ r with mode := .escape }, []) := by
    simp [step, h]
  rw [feed_cons, hfirst]
  rfl

variable (terminator : Terminator)

theorem feed_terminator : (Reader.feed ⟨.osc, payload, false⟩ terminator.bytes).1.mode = .text ∧
      (Reader.feed ⟨.osc, payload, false⟩ terminator.bytes).2 = (classify payload).toList := by
  cases terminator with
  | bell => exact ⟨rfl, append_nil _⟩
  | stringTerminator => exact ⟨rfl, append_nil _⟩

theorem feed_skip_terminator :
    (Reader.feed ⟨.skip, payload, false⟩ terminator.bytes).1.mode = .text ∧
      (Reader.feed ⟨.skip, payload, false⟩ terminator.bytes).2 = [] := by
  cases terminator with
  | bell => exact ⟨rfl, rfl⟩
  | stringTerminator => exact ⟨rfl, rfl⟩

/-- A frame read in plain text is classified when its payload fits, and passed over
when it does not. -/
theorem feed_frame (h : r.mode = .text) (f : Frame) : (r.feed f.bytes).1.mode = .text ∧
      (r.feed f.bytes).2 =
        if f.payload.length ≤ maxPayloadBytes then (classify f.payload).toList else [] := by
  rw [Frame.bytes, feed_introducer h, feed_append,
    feed_payload [] f.noBell f.noEscape (Nat.zero_le _), nil_append]
  by_cases hfits : f.payload.length ≤ maxPayloadBytes
  · rw [if_pos hfits, if_pos hfits]
    exact feed_terminator f.payload f.terminator
  · rw [if_neg hfits, if_neg hfits]
    exact feed_skip_terminator [] f.terminator

theorem step_introducer (h : r.Inside) (hescaped : r.escaped = true) :
    ∃ payload, r.step oscIntroducer = (⟨.skip, payload, false⟩, []) := by
  obtain ⟨mode, payload, escaped⟩ := r
  subst hescaped
  cases h with
  | inl hmode =>
    subst hmode
    exact ⟨payload, rfl⟩
  | inr hmode =>
    subst hmode
    exact ⟨payload, rfl⟩

/-- A frame read in a control string is part of it: its introducer begins nothing and
its terminator ends the string. -/
theorem feed_frame_inside (h : r.Inside) (f : Frame) :
    (r.feed f.bytes).1.mode = .text ∧ (r.feed f.bytes).2 = [] := by
  have hesc := step_inside h esc (by decide) (fun _ => by decide)
  obtain ⟨payload, hskip⟩ := step_introducer hesc.2.1 (hesc.2.2.mpr rfl)
  have hpayload := feed_skip payload f.noBell f.noEscape
  have hend := feed_skip_terminator payload f.terminator
  rw [Frame.bytes, feed_cons, feed_cons, feed_append, hskip, hesc.1, hpayload.1, hpayload.2, hend.2]
  exact ⟨hend.1, rfl⟩

theorem feed_control (h : r.mode = .text) {introducer : UInt8}
    (hintroducer : introducer = oscIntroducer ∨ introducer ∈ skipped) :
    (r.feed [esc, introducer]).2 = [] ∧ (r.feed [esc, introducer]).1.Inside ∧
      (r.feed [esc, introducer]).1.escaped = false := by
  have hfirst : r.step esc = ({ r with mode := .escape }, []) := by
    simp [step, h]
  rw [feed_cons, hfirst]
  by_cases hosc : introducer = oscIntroducer
  · simp [feed, step, hosc, Inside]
  · have hmem : introducer ∈ skipped := hintroducer.resolve_left hosc
    simp [feed, step, hosc, hmem, Inside]

/-- Whatever was read before, BEL brings the reader back to plain text: a frame after it
is read on its own, and one that is too long or part of another control string is
passed over. The chunks the bytes arrive in do not matter. -/
theorem frames_resynchronise (before : Bytes) (f : Frame) (chunks : List Bytes) :
    (chunks.flatten = before ++ [bel] ++ f.bytes →
      (default.feedChunks chunks).1.mode = .text ∧
      (f.payload.length ≤ maxPayloadBytes →
        (default.feedChunks chunks).2 =
          (default.feed (before ++ [bel])).2 ++ (classify f.payload).toList) ∧
      (maxPayloadBytes < f.payload.length →
        (default.feedChunks chunks).2 = (default.feed (before ++ [bel])).2)) ∧
    ∀ introducer body, introducer = oscIntroducer ∨ introducer ∈ skipped → Open body →
      chunks.flatten = before ++ [bel] ++ ([esc, introducer] ++ (body ++ f.bytes)) →
      (default.feedChunks chunks).1.mode = .text ∧
      (default.feedChunks chunks).2 = (default.feed (before ++ [bel])).2 := by
  have htext : (default.feed (before ++ [bel])).1.mode = .text := by
    rw [feed_append]
    exact (step_bel (settled_feed settled_default before)).1
  constructor
  · intro hchunks
    have hframe := feed_frame htext f
    rw [feedChunks_eq, hchunks, feed_append, hframe.2]
    refine ⟨hframe.1, fun hfits => by rw [if_pos hfits], fun hlong => ?_⟩
    rw [if_neg (Nat.not_le.mpr hlong), append_nil]
  · intro introducer body hintroducer hbody hchunks
    have hstart := feed_control htext hintroducer
    have hopen := feed_open hstart.2.1 hbody (fun hescaped => by
      rw [hstart.2.2] at hescaped
      cases hescaped)
    have hframe := feed_frame_inside hopen.2 f
    rw [feedChunks_eq, hchunks, feed_append, feed_append, feed_append]
    refine ⟨hframe.1, ?_⟩
    rw [hstart.1, hopen.1, hframe.2]
    exact append_nil _

end Reader

/-- `state=working:app=codex`, ended by `ESC \`. -/
def workingFrame : Frame where
  payload := "7501;state=working:app=codex".toUTF8.toList
  terminator := .stringTerminator
  noBell := by decide +kernel
  noEscape := by decide +kernel

/-- A title that was cut off, and a frame cut inside its terminator. -/
theorem frames_resynchronise_working :
    classify workingFrame.payload = some .working ∧
      (Reader.default.feedChunks
        ["\x1b]0;title".toUTF8.toList, [bel] ++ workingFrame.bytes.take 31,
          workingFrame.bytes.drop 31]).2 =
        (Reader.default.feed ("\x1b]0;title".toUTF8.toList ++ [bel])).2 ++
          (classify workingFrame.payload).toList :=
  ⟨by decide +kernel, ((Reader.frames_resynchronise "\x1b]0;title".toUTF8.toList workingFrame _).1
    (by decide +kernel)).2.1 (by decide +kernel)⟩

end Orkworksd.Runtime.TerminalStatus
