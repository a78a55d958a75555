import Mathlib.Algebra.Order.Ring.Int
import Orkworksd.Lib.Utf8
import Mathlib.Algebra.BigOperators.Group.List.Basic

/- The persisted terminal history: `drain_persist_records` of
   `runtime/session_runtime.rs`, which cuts a session's output into records, and the
   `<id>.terminal` file of `metadata.rs`, which keeps the newest of them.

   A Rust text is its UTF-8 bytes. The file is its content, absent before the first
   append; the operating system's failures are left out. serde_json writes the stored
   record as `toJson` spells out; its reader is a parameter. -/
namespace Orkworksd.Metadata.Terminal
open Orkworksd.Lib

abbrev Bytes := List UInt8

def maxPartialPersistBytes : Nat := 64 * 1024
def terminalOutputMaxLines : Nat := 1000
def terminalOutputMaxBytes : Nat := 1024 * 1024
def terminalOutputTrimTargetBytes : Nat := terminalOutputMaxBytes * 3 / 4
def terminalOutputTrimTargetLines : Nat := terminalOutputMaxLines * 3 / 4

inductive TerminalOutputRecord where
  | legacy (text : Bytes)
  | raw (text delimiter : Bytes)
  deriving DecidableEq, Repr

namespace TerminalOutputRecord

def text : TerminalOutputRecord → Bytes
  | .legacy text => text
  | .raw text _ => text

def delimiter : TerminalOutputRecord → Bytes
  | .legacy _ => []
  | .raw _ delimiter => delimiter

end TerminalOutputRecord

/-! Draining. -/

def newline : UInt8 := 0x0a
def carriageReturn : UInt8 := 0x0d

/-- The record of a drained line, which ends with its newline. -/
def lineRecord (line : Bytes) : TerminalOutputRecord :=
  if [carriageReturn, newline] <:+ line then
    .raw (Utf8.lossy (line.take (line.length - 2))) [carriageReturn, newline]
  else .raw (Utf8.lossy (line.take (line.length - 1))) [newline]

/-- The first loop of `drain_persist_records`: the lines of the buffer and what is left
after the last of them. -/
def drainLines (line : Bytes) : Bytes → List TerminalOutputRecord × Bytes
  | [] => ([], line)
  | b :: rest =>
    if b = newline then
      let (records, left) := drainLines [] rest
      (lineRecord (line ++ [b]) :: records, left)
    else drainLines (line ++ [b]) rest

/-- The bytes that continue a character just before the limit, at most three. -/
def firstContinuation (buffer : Bytes) : Nat → Nat → Nat
  | 0, stop => stop
  | steps + 1, stop =>
    if buffer.getD (stop - 1) 0 &&& 0xc0 = 0x80 then firstContinuation buffer steps (stop - 1)
    else stop

/-- The length of the character that a lead byte announces. -/
def expectedLen (lead : UInt8) : Nat :=
  if 0xc2 ≤ lead && lead ≤ 0xdf then 2
  else if 0xe0 ≤ lead && lead ≤ 0xef then 3
  else if 0xf0 ≤ lead && lead ≤ 0xf4 then 4
  else 1

def partialPersistFlushEnd (buffer : Bytes) : Nat :=
  let lead := firstContinuation buffer 3 maxPartialPersistBytes - 1
  if maxPartialPersistBytes - lead < expectedLen (buffer.getD lead 0) then lead
  else maxPartialPersistBytes

/-- The second loop of `drain_persist_records`. Every turn takes bytes off the buffer, so
its length is fuel enough. -/
def flushPartial : Nat → Bytes → List TerminalOutputRecord × Bytes
  | 0, buffer => ([], buffer)
  | fuel + 1, buffer =>
    if maxPartialPersistBytes < buffer.length then
      let flushEnd := partialPersistFlushEnd buffer
      let (records, left) := flushPartial fuel (buffer.drop flushEnd)
      (.raw (Utf8.lossy (buffer.take flushEnd)) [] :: records, left)
    else ([], buffer)

/-- `drain_persist_records`: the records, and the buffer it leaves. -/
def drainPersistRecords (buffer : Bytes) : List TerminalOutputRecord × Bytes :=
  let (lines, left) := drainLines [] buffer
  let (parts, left) := flushPartial left.length left
  (lines ++ parts, left)

/-- The driver's loop over the chunks of the output. -/
def drainChunks (buffer : Bytes) : List Bytes → List TerminalOutputRecord × Bytes
  | [] => ([], buffer)
  | chunk :: chunks =>
    let (records, left) := drainPersistRecords (buffer ++ chunk)
    let (later, left) := drainChunks left chunks
    (records ++ later, left)

/-- The records of a whole stream, the last partial one included. -/
def drained (chunks : List Bytes) : List TerminalOutputRecord :=
  let (records, left) := drainChunks [] chunks
  if left.isEmpty then records else records ++ [.raw (Utf8.lossy left) []]

/-! The file. -/

def recordPrefix : Bytes := [0x1e]

/-- `TERMINAL_OUTPUT_FILE_MARKER` and its newline. -/
def fileMarker : Bytes := recordPrefix ++ "orkworks-terminal-v1\n".toUTF8.toList

def hexDigit (n : UInt8) : UInt8 := if n < 10 then 0x30 + n else 0x61 + (n - 10)

/-- serde_json's escape of one byte of a text. -/
def escapeByte (b : UInt8) : Bytes :=
  if b = 0x22 then [0x5c, 0x22]
  else if b = 0x5c then [0x5c, 0x5c]
  else if b = 0x08 then [0x5c, 0x62]
  else if b = 0x09 then [0x5c, 0x74]
  else if b = 0x0a then [0x5c, 0x6e]
  else if b = 0x0c then [0x5c, 0x66]
  else if b = 0x0d then [0x5c, 0x72]
  else if b < 0x20 then [0x5c, 0x75, 0x30, 0x30, hexDigit (b / 16), hexDigit (b % 16)]
  else [b]

def escape (text : Bytes) : Bytes := text.flatMap escapeByte

/-- The members of the stored record, in the order of its fields. -/
def jsonText : Bytes := "\x7b\"v\":1,\"text\":\"".toUTF8.toList
def jsonDelimiter : Bytes := "\",\"delimiter\":\"".toUTF8.toList
def jsonEnd : Bytes := "\"\x7d".toUTF8.toList

/-- `serde_json::to_string` of a `StoredTerminalOutputRecord`. -/
def toJson (text delimiter : Bytes) : Bytes :=
  jsonText ++ escape text ++ (jsonDelimiter ++ (escape delimiter ++ jsonEnd))

def encodeTerminalOutputRecord (record : TerminalOutputRecord) : Bytes :=
  recordPrefix ++ toJson record.text record.delimiter

structure StoredTerminalOutputRecord where
  v : Nat
  text : Bytes
  delimiter : Bytes
  deriving DecidableEq, Repr

section Reader

-- `serde_json::from_str::<StoredTerminalOutputRecord>`
variable (fromJson : Bytes → Option StoredTerminalOutputRecord)

def decodeTerminalOutputRecord (line : Bytes) : TerminalOutputRecord :=
  match line with
  | 0x1e :: json =>
    match fromJson json with
    | some stored =>
      if stored.v = 1
          ∧ stored.delimiter ∈ [[], [newline], [carriageReturn, newline]] then
        .raw stored.text stored.delimiter
      else .legacy line
    | none => .legacy line
  | _ => .legacy line

/-- The file as `read_until` hands it out, each line with its newline. -/
def physicalLines : Bytes → List Bytes
  | [] => []
  | b :: rest =>
    if b = newline then [b] :: physicalLines rest
    else
      match physicalLines rest with
      | [] => [[b]]
      | line :: lines => (b :: line) :: lines

def lineText (line : Bytes) : Bytes :=
  Utf8.lossy (if line.getLast? = some newline then line.dropLast else line)

def totalBytes (lines : List Bytes) : Nat := (lines.map List.length).sum

structure TerminalOutputTail where
  physical : List Bytes
  marker : Option Bytes
  discarded : Bool
  deriving DecidableEq, Repr

/-- One turn of the reading loop, past the marker. The two deques of the source pop and
push together; the texts are read off the physical lines at the end. -/
def keepLine (maxLines : Nat) (kept : List Bytes × Bool) (line : Bytes) : List Bytes × Bool :=
  if maxLines = 0 then (kept.1, true)
  else if kept.1.length = maxLines then (kept.1.drop 1 ++ [line], true)
  else (kept.1 ++ [line], kept.2)

/-- The loop that drops lines from the front until the bytes fit. -/
def fitBytes (maxBytes : Nat) : List Bytes → Bool → List Bytes × Bool
  | [], discarded => ([], discarded)
  | line :: lines, discarded =>
    if maxBytes < totalBytes (line :: lines) then fitBytes maxBytes lines true
    else (line :: lines, discarded)

def readTerminalOutputTail (content : Bytes) (maxLines maxBytes : Nat) : TerminalOutputTail :=
  let (marker, lines) :=
    match physicalLines content with
    | first :: rest => if first = fileMarker then (some first, rest) else (none, first :: rest)
    | [] => (none, [])
  let (kept, discarded) := lines.foldl (keepLine maxLines) ([], false)
  let (physical, discarded) := fitBytes maxBytes kept discarded
  { physical, marker, discarded }

def terminalOutputIsVersioned (content : Bytes) : Bool :=
  (physicalLines content).head? == some fileMarker

def terminalOutputExceedsLineLimit (content : Bytes) (maxLines : Nat) : Bool :=
  match physicalLines content with
  | [] => false
  | first :: rest => decide (maxLines < rest.length + if first = fileMarker then 0 else 1)

def trimTerminalOutput (file : Option Bytes) (maxLines : Nat) : Option Bytes :=
  match file with
  | none => none
  | some content =>
    let tail := readTerminalOutputTail content maxLines terminalOutputTrimTargetBytes
    if tail.discarded then some (tail.marker.getD [] ++ tail.physical.flatten) else some content

def appendTerminalOutputRecords (file : Option Bytes) (records : List TerminalOutputRecord) :
    Option Bytes :=
  if records.isEmpty then file
  else
    let existing := file.getD []
    let encoded := existing.isEmpty || terminalOutputIsVersioned existing
    let written :=
      (if existing.isEmpty then fileMarker else existing)
        ++ records.flatMap (fun record =>
          (if encoded then encodeTerminalOutputRecord record else record.text) ++ [newline])
    let contentLen := if encoded then written.length - fileMarker.length else written.length
    if terminalOutputMaxBytes < contentLen
        || terminalOutputExceedsLineLimit written terminalOutputMaxLines then
      trimTerminalOutput (some written) terminalOutputTrimTargetLines
    else some written

def readTerminalOutput (file : Option Bytes) (maxLines : Nat) : List TerminalOutputRecord :=
  match file with
  | none => []
  | some content =>
    let tail := readTerminalOutputTail content maxLines terminalOutputMaxBytes
    tail.physical.map (fun line =>
      if tail.marker.isSome then decodeTerminalOutputRecord fromJson (lineText line)
      else .legacy (lineText line))

end Reader

/-- The operations on a session's file. -/
inductive Op where
  | append (records : List TerminalOutputRecord)
  | trim (maxLines : Nat)
  deriving DecidableEq, Repr

def Op.run (file : Option Bytes) : Op → Option Bytes
  | .append records => appendTerminalOutputRecords file records
  | .trim maxLines => trimTerminalOutput file maxLines

/-- The records that a sequence of operations appends. -/
def appended (ops : List Op) : List TerminalOutputRecord :=
  ops.flatMap (fun op =>
    match op with
    | .append records => records
    | .trim _ => [])

end Orkworksd.Metadata.Terminal
