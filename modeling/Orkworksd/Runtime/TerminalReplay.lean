import Orkworksd.Lib.Utf8

/- The interaction-mode checkpoint of the bounded PTY replay (`terminal_replay_modes.rs`)
   and the buffer that keeps it (`ReplayBuffer`). Evicted bytes advance the tracker;
   `prefix` turns the tracker back into bytes that a fresh terminal reads before the
   retained ones.

   `shown` is not in the source: it is the text a terminal that parses as the tracker
   does puts on screen, the bytes that reach `control` in the ground state. -/
namespace Orkworksd.Runtime.Replay

open Orkworksd.Lib

abbrev Bytes := List UInt8

inductive ParserState where
  | ground
  | escape (intermediates : Bytes)
  | csi (params : Bytes)
  | ignoreCsi
  | string (kind : UInt8)
  deriving DecidableEq, Repr

def modeNumbers : List Nat := [1, 7, 25, 1004, 2004]

def defaultModes : List Bool := [false, true, true, false, false]

def maxSequenceBytes : Nat := 128

structure TerminalReplayModes where
  parser : ParserState
  utf8 : Bytes
  modes : List Bool
  alternate : Bool
  mouse : Option Nat
  encoding : Option Nat
  applicationKeypad : Bool
  deriving DecidableEq, Repr

namespace TerminalReplayModes

def default : TerminalReplayModes where
  parser := .ground
  utf8 := []
  modes := defaultModes
  alternate := false
  mouse := none
  encoding := none
  applicationKeypad := false

/-- A decimal parameter, `none` where it overflows a `u16`. -/
def parseMode (param : Bytes) : Option Nat :=
  param.foldlM (fun n digit =>
    if n * 10 + (digit.toNat - 48) < 65536 ∧ n * 10 < 65536 then some (n * 10 + (digit.toNat - 48))
    else none) 0

/-- One private mode switched on or off. -/
def setMode (t : TerminalReplayModes) (mode : Nat) (enabled : Bool) : TerminalReplayModes :=
  if mode = 47 ∨ mode = 1047 ∨ mode = 1049 then { t with alternate := enabled }
  else if mode = 9 ∨ mode = 1000 ∨ mode = 1002 ∨ mode = 1003 then
    { t with mouse := if enabled then some mode else none }
  else if mode = 1006 ∨ mode = 1016 then { t with encoding := if enabled then some mode else none }
  else if mode = 66 then { t with applicationKeypad := enabled }
  else match modeNumbers.findIdx? (· = mode) with
    | some index => { t with modes := t.modes.set index enabled }
    | none => t

/-- `csi`: the effect of a complete control sequence. -/
def csi (t : TerminalReplayModes) (params : Bytes) (finalByte : UInt8) : TerminalReplayModes :=
  if params = [0x21] ∧ finalByte = 0x70 then
    { t with modes := defaultModes, applicationKeypad := false }
  else if ¬ (finalByte = 0x68 ∨ finalByte = 0x6c) ∨ params.head? ≠ some 0x3f then t
  else if !params.tail.all (fun b => (0x30 ≤ b && b ≤ 0x39) || b == 0x3b) then t
  else
    (params.tail.splitOn 0x3b).foldl (fun t param =>
      match parseMode param with
      | some mode => t.setMode mode (finalByte = 0x68)
      | none => t) t

/-- The control string a C1 byte opens. -/
def c1String (byte : UInt8) : Option UInt8 :=
  if byte = 0x90 then some 0x50
  else if byte = 0x98 then some 0x58
  else if byte = 0x9d then some 0x5d
  else if byte = 0x9e then some 0x5e
  else if byte = 0x9f then some 0x5f
  else none

/-- What the byte after ESC does to the modes: `c` resets, `=` and `>` set the
keypad. -/
def escapeEffect (t : TerminalReplayModes) (intermediates : Bytes) (byte : UInt8) :
    TerminalReplayModes :=
  if intermediates = [] ∧ byte = 0x63 then default
  else if intermediates = [] ∧ byte = 0x3d then { t with applicationKeypad := true }
  else if intermediates = [] ∧ byte = 0x3e then { t with applicationKeypad := false }
  else t

/-- The part of `control` that depends on the parser's state. -/
def parse (t : TerminalReplayModes) (byte : UInt8) : TerminalReplayModes :=
  match t.parser with
  | .ground => t
  | .escape intermediates =>
    if intermediates = [] ∧ byte = 0x5b then { t with parser := .csi [] }
    else if intermediates = [] ∧ (byte = 0x5d ∨ byte = 0x50 ∨ byte = 0x58 ∨ byte = 0x5e ∨ byte = 0x5f) then
      { t with parser := .string byte }
    else
      let t := t.escapeEffect intermediates byte
      if 0x20 ≤ byte ∧ byte ≤ 0x2f ∧ intermediates.length < maxSequenceBytes then
        { t with parser := .escape (intermediates ++ [byte]) }
      else if byte < 0x20 then { t with parser := .escape intermediates }
      else { t with parser := .ground }
  | .csi params =>
    if 0x40 ≤ byte ∧ byte ≤ 0x7e then { t.csi params byte with parser := .ground }
    else if byte < 0x20 then t
    else if params.length < maxSequenceBytes then { t with parser := .csi (params ++ [byte]) }
    else { t with parser := .ignoreCsi }
  | .ignoreCsi => if 0x40 ≤ byte ∧ byte ≤ 0x7e then { t with parser := .ground } else t
  | .string kind => if kind = 0x5d ∧ byte = 0x07 then { t with parser := .ground } else t

/-- `control`: one decoded control or character, any character above U+009F as
`0xff`. -/
def control (t : TerminalReplayModes) (byte : UInt8) : TerminalReplayModes :=
  if byte = 0x9b then { t with parser := .csi [] }
  else match c1String byte with
    | some kind => { t with parser := .string kind }
    | none =>
      if byte = 0x9c then { t with parser := .ground }
      else if byte = 0x7f ∨ (0x80 ≤ byte ∧ byte ≤ 0x9f) then t
      else if byte = 0x18 ∨ byte = 0x1a then { t with parser := .ground }
      else if byte = 0x1b then { t with parser := .escape [] }
      else t.parse byte

def charControl (utf8 : Bytes) : UInt8 :=
  match utf8 with
  | [lead, second] =>
    let code := (lead.toNat - 0xc0) * 64 + (second.toNat - 0x80)
    if 0x80 ≤ code ∧ code ≤ 0x9f then UInt8.ofNat code else 0xff
  | _ => 0xff

/-- The body of `advance`'s loop. -/
def advanceByte (t : TerminalReplayModes) (byte : UInt8) : TerminalReplayModes :=
  if t.utf8 = [] then
    if byte < 0x80 then t.control byte
    else if Utf8.isLead byte then { t with utf8 := [byte] }
    else t.control 0xff
  else match Utf8.verdict (t.utf8 ++ [byte]) with
    | .complete => { t with utf8 := [] }.control (charControl (t.utf8 ++ [byte]))
    | .incomplete => { t with utf8 := t.utf8 ++ [byte] }
    | .invalid =>
      let t := { t with utf8 := [] }.control 0xff
      -- an invalid start must not swallow what follows it
      if byte < 0x80 then t.control byte
      else if Utf8.isLead byte then { t with utf8 := [byte] }
      else t

def advance (t : TerminalReplayModes) (bytes : Bytes) : TerminalReplayModes :=
  bytes.foldl advanceByte t

/-- A mode number in decimal. -/
def modeDigits (mode : Nat) : Bytes := (Nat.toDigits 10 mode).map (fun c => UInt8.ofNat c.toNat)

/-- `\x1b[?<mode>h` or `\x1b[?<mode>l`. -/
def privateMode (mode : Nat) (enabled : Bool) : Bytes :=
  [0x1b, 0x5b] ++ (0x3f :: modeDigits mode) ++ [if enabled then 0x68 else 0x6c]

/-- The bytes that set the modes of the tracker in a fresh terminal. -/
def modePrefix (t : TerminalReplayModes) : Bytes :=
  (if t.alternate then privateMode 1049 true else [])
    ++ (if t.applicationKeypad then [0x1b, 0x3d] else [])
    ++ [t.mouse, t.encoding].reduceOption.flatMap (fun mode => privateMode mode true)
    ++ (modeNumbers.zip (t.modes.zip defaultModes)).flatMap (fun (mode, value, standard) =>
        if value = standard then [] else privateMode mode value)

/-- The bytes that re-enter the sequence the tracker is inside of. -/
def parserPrefix : ParserState → Bytes
  | .ground => []
  | .escape intermediates => 0x1b :: intermediates
  | .csi params => [0x1b, 0x5b] ++ params
  | .ignoreCsi => [0x1b, 0x5b, 0x30, 0x3f]
  | .string kind => [0x1b, kind]

def replayPrefix (t : TerminalReplayModes) : Bytes :=
  t.modePrefix ++ parserPrefix t.parser ++ t.utf8

/-! ## What a terminal shows -/

/-- The text `control` puts on screen: a printable character in the ground state. -/
def controlShown (t : TerminalReplayModes) (byte : UInt8) : Bytes :=
  if t.parser = .ground ∧ 0x20 ≤ byte ∧ byte ≠ 0x7f ∧ ¬ (0x80 ≤ byte ∧ byte ≤ 0x9f) then [byte]
  else []

/-- The text `advanceByte` puts on screen. -/
def byteShown (t : TerminalReplayModes) (byte : UInt8) : Bytes :=
  if t.utf8 = [] then
    if byte < 0x80 then t.controlShown byte
    else if Utf8.isLead byte then []
    else t.controlShown 0xff
  else match Utf8.verdict (t.utf8 ++ [byte]) with
    | .complete => { t with utf8 := [] }.controlShown (charControl (t.utf8 ++ [byte]))
    | .incomplete => []
    | .invalid =>
      { t with utf8 := [] }.controlShown 0xff ++
        if byte < 0x80 then ({ t with utf8 := [] }.control 0xff).controlShown byte else []

/-- The text `advance` puts on screen. -/
def shown (t : TerminalReplayModes) : Bytes → Bytes
  | [] => []
  | byte :: bytes => t.byteShown byte ++ (t.advanceByte byte).shown bytes

end TerminalReplayModes

structure ReplayBuffer where
  capacity : Nat
  nextCursor : Nat
  chunks : List (Nat × Bytes)
  modes : TerminalReplayModes

namespace ReplayBuffer

def new (capacity : Nat) : ReplayBuffer where
  capacity := capacity
  nextCursor := 0
  chunks := []
  modes := .default

/-- The eviction loop of `push`: the oldest chunks go through the tracker. -/
def evict (capacity : Nat) : List (Nat × Bytes) → TerminalReplayModes →
    List (Nat × Bytes) × TerminalReplayModes
  | [], modes => ([], modes)
  | chunk :: chunks, modes =>
    if (chunk :: chunks).length > capacity then evict capacity chunks (modes.advance chunk.2)
    else (chunk :: chunks, modes)

def push (buffer : ReplayBuffer) (chunk : Bytes) : ReplayBuffer :=
  let evicted := evict buffer.capacity (buffer.chunks ++ [(buffer.nextCursor, chunk)]) buffer.modes
  { buffer with
    nextCursor := buffer.nextCursor + 1
    chunks := evicted.1
    modes := evicted.2 }

def startCursor (buffer : ReplayBuffer) : Nat :=
  (buffer.chunks.head?.map Prod.fst).getD buffer.nextCursor

def snapshot (buffer : ReplayBuffer) : List (Nat × Bytes) :=
  match buffer.chunks with
  | [] => []
  | (cursor, bytes) :: chunks => (cursor, buffer.modes.replayPrefix ++ bytes) :: chunks

/-- The bytes a client receives from a snapshot. -/
def replayed (buffer : ReplayBuffer) : Bytes := buffer.snapshot.flatMap Prod.snd

end ReplayBuffer

end Orkworksd.Runtime.Replay
