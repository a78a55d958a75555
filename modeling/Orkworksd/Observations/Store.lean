import Mathlib.Algebra.Order.Ring.Rat
import Orkworksd.Lib.JsonText
import Orkworksd.Lib.Lines
import Orkworksd.Lib.Text
import Orkworksd.Lib.TextMap
import Orkworksd.Taskmaster.Recommendation

/- The workflow-observation store (`workflow_observations.rs`): validation, key and
   payload hashes, the sequence counter, one journal per session with its retention
   rules, the spam trim, deletion, and `open`.

   A session's journal is a byte string, one JSON object a line, tombstones and
   observations mixed. The lines are printed here as serde_json prints them, with the
   keys in the order of its map. What is left to `Env` is code outside the repository:
   SHA-256, the RFC 3339 texts, lower case and NFKC, the text of a float and the JSON
   reader. A session id is the name of its journal.

   Every write carries its fate, so that one definition covers the runs without faults
   and the runs with failed and torn writes; a crash is a failed write followed by
   `openStore`. Diagnostics, write permits and evaluation generations are left out: no
   function modelled here reads them. -/
namespace Orkworksd.Observations

open Taskmaster (Bytes utf8 ObservationKind Impact ObservationSource WorkflowObservation)
open Lib (TextMap)
open Lib.Lines (newline chunks content)
open Lib.JsonText (Atom object encode)

/-! ## Constants -/

def maxDescriptionChars : Nat := 500
def maxEvidenceChars : Nat := 2000
def maxProblemAreaChars : Nat := 120
def maxSegmentObservations : Nat := 1000
def maxSegmentBytes : Nat := 2 * 1024 * 1024
def idempotencyWindowSecs : Int := 15 * 60
def maxTombstones : Nat := 1024
def maxAcceptedPerSessionMinute : Nat := 60
def rateLimitWindowSecs : Int := 60
def spamWindowSecs : Int := 30 * 60

/-- The double nearest to 0.9. -/
def agentConfidence : ℚ := 8106479329266893 / 9007199254740992

/-! ## Data -/

/-- A `DateTime<Utc>`: nanoseconds since the epoch, within the range of the type. -/
structure Timestamp where
  nanos : Int
  lower : -8334601228800000000000 ≤ nanos
  upper : nanos ≤ 8210266876799999999999
  deriving DecidableEq

inductive ObservationOrigin where
  | agent | peon
  deriving DecidableEq, Repr

structure ObservationCandidate where
  kind : ObservationKind
  description : String
  evidence : String
  problemArea : Option String
  reportedImpact : Impact
  confidence : Option ℚ
  deriving DecidableEq

structure StoredObservation where
  observation : WorkflowObservation
  idempotencyKeyHash : String
  payloadHash : String
  deriving DecidableEq

structure Tombstone where
  idempotencyKeyHash : String
  payloadHash : String
  observationId : String
  sequence : Nat
  acceptedAt : String
  deriving DecidableEq

inductive RecordOutcome where
  | accepted (observation : WorkflowObservation)
  | duplicate (observationId : String) (sequence : Nat) (acceptedAt : String)
  deriving DecidableEq

inductive RecordError where
  | emptySessionId | emptyIdempotencyKey | emptyDescription | descriptionTooLong
  | emptyEvidence | evidenceTooLong | emptyProblemArea | problemAreaContainsControl
  | missingConfidence | confidenceOutOfRange | idempotencyConflict | degraded
  | persistFailed | rateLimited
  deriving DecidableEq, Repr

structure IdempotencyEntry where
  observationId : String
  sequence : Nat
  acceptedAt : String
  payloadHash : String
  deriving DecidableEq

structure SessionCache where
  observations : List StoredObservation
  tombstones : List Tombstone
  deriving DecidableEq

def SessionCache.empty : SessionCache := ⟨[], []⟩

/-- What `parse_line` reads of a JSON value: its `record` text, and the value as
each of the two types. -/
structure JsonValue where
  record : Option String
  asObservation : Option StoredObservation
  asTombstone : Option Tombstone

/-- Code outside the repository. -/
structure Env where
  /-- The digest in hexadecimal. -/
  sha256 : Bytes → String
  toRfc3339 : Timestamp → String
  parseRfc3339 : String → Option Timestamp
  toLowercase : Char → List Char
  nfkc : List Char → List Char
  /-- The number serde_json prints for a float, and what it reads from one. -/
  printF64 : ℚ → List Char
  readF64 : List Char → ℚ
  fromSlice : Bytes → Option JsonValue

/-! ## Windows -/

def nanosPerSec : Int := 1000000000

/-- The text is a time at most `secs` seconds before `now`. -/
def withinSecs (env : Env) (secs : Int) (now : Timestamp) (iso : String) : Bool :=
  match env.parseRfc3339 iso with
  | some at_ => decide (now.nanos - at_.nanos ≤ secs * nanosPerSec)
  | none => false

def withinWindow (env : Env) : Timestamp → String → Bool := withinSecs env idempotencyWindowSecs

def withinRateWindow (env : Env) : Timestamp → String → Bool := withinSecs env rateLimitWindowSecs

/-! ## Validation and hashes -/

def kindText : ObservationKind → String
  | .repetition => "repetition"
  | .obstacle => "obstacle"
  | .missingContext => "missing_context"
  | .assumption => "assumption"
  | .correction => "correction"
  | .workaround => "workaround"
  | .verificationGap => "verification_gap"

def impactText : Impact → String
  | .low => "low"
  | .medium => "medium"
  | .high => "high"

def sourceText : ObservationSource → String
  | .agent => "agent"
  | .peon => "peon"

/-- The loop of `normalize_description` over the trimmed text. -/
def collapse (env : Env) : Bool → List Char → List Char
  | _, [] => []
  | lastWasSpace, c :: chars =>
    if Lib.Text.isWhitespace c then
      if lastWasSpace then collapse env true chars else ' ' :: collapse env true chars
    else env.toLowercase c ++ collapse env false chars

def normalizeDescription (env : Env) (description : List Char) : List Char :=
  collapse env false (Lib.Text.trim description)

def canonicalizeProblemArea (env : Env) (problemArea : String) : Except RecordError String :=
  if problemArea.toList.any Lib.Text.isControl then .error .problemAreaContainsControl
  else
    let normalized := (env.nfkc problemArea.toList).flatMap env.toLowercase
    let canonical := normalizeDescription env normalized
    if canonical.isEmpty then .error .emptyProblemArea
    else .ok (String.ofList (canonical.take maxProblemAreaChars))

/-- `as_deref().map(canonicalize_problem_area).transpose()`. -/
def canonicalArea (env : Env) : Option String → Except RecordError (Option String)
  | none => .ok none
  | some problemArea =>
    match canonicalizeProblemArea env problemArea with
    | .ok canonical => .ok (some canonical)
    | .error e => .error e

def sourceAndConfidence (origin : ObservationOrigin) (confidence : Option ℚ) :
    Except RecordError (ObservationSource × ℚ) :=
  match origin with
  | .agent => .ok (.agent, agentConfidence)
  | .peon =>
    match confidence with
    | none => .error .missingConfidence
    | some c => if 0 ≤ c ∧ c ≤ 1 then .ok (.peon, c) else .error .confidenceOutOfRange

def validateCandidate (env : Env) (origin : ObservationOrigin) (candidate : ObservationCandidate) :
    Except RecordError (ObservationSource × ℚ) :=
  if (Lib.Text.trim candidate.description.toList).isEmpty then .error .emptyDescription
  else if maxDescriptionChars < candidate.description.toList.length then .error .descriptionTooLong
  else if (Lib.Text.trim candidate.evidence.toList).isEmpty then .error .emptyEvidence
  else if maxEvidenceChars < candidate.evidence.toList.length then .error .evidenceTooLong
  else
    match sourceAndConfidence origin candidate.confidence with
    | .error e => .error e
    | .ok result =>
      match canonicalArea env candidate.problemArea with
      | .error e => .error e
      | .ok _ => .ok result

def fingerprintV2 (env : Env) (kind : ObservationKind) (canonicalProblemArea : String) : String :=
  "v2:" ++ kindText kind ++ ":"
    ++ env.sha256 (utf8 (kindText kind) ++ [0] ++ utf8 canonicalProblemArea)

def hashKey (env : Env) (sessionId idempotencyKey : String) : String :=
  env.sha256 (utf8 sessionId ++ [0] ++ utf8 idempotencyKey)

/-- The bytes `hash_payload` feeds to the hasher. -/
def payloadText (kind : ObservationKind) (description evidence : String) (impact : Impact)
    (problemArea : Option String) : Bytes :=
  utf8 (kindText kind) ++ [0] ++ utf8 description ++ [0] ++ utf8 evidence ++ [0]
    ++ utf8 (impactText impact)
    ++ (match problemArea with
        | some area => [0] ++ utf8 area
        | none => [])

def hashPayload (env : Env) (kind : ObservationKind) (description evidence : String)
    (impact : Impact) (problemArea : Option String) : String :=
  env.sha256 (payloadText kind description evidence impact problemArea)

/-! ## Lines -/

def text (key value : String) : List Char × Atom := (key.toList, .text value.toList)

def token (key : String) (value : List Char) : List Char × Atom := (key.toList, .token value)

/-- The members of an observation's object, by key. -/
def observationMembers (env : Env) (stored : StoredObservation) : List (List Char × Atom) :=
  let o := stored.observation
  [token "confidence" (env.printF64 o.confidence),
   text "description" o.description,
   text "evidence" o.evidence,
   text "fingerprint" o.fingerprint,
   text "id" o.id,
   text "idempotencyKeyHash" stored.idempotencyKeyHash,
   text "kind" (kindText o.kind),
   text "observedAt" o.observedAt,
   text "payloadHash" stored.payloadHash,
   (match o.problemArea with
    | some area => text "problemArea" area
    | none => token "problemArea" "null".toList),
   text "record" "observation",
   text "reportedImpact" (impactText o.reportedImpact),
   token "sequence" (Nat.toDigits 10 o.sequence),
   text "sessionId" o.sessionId,
   text "source" (sourceText o.source)]

def serializeObservationLine (env : Env) (stored : StoredObservation) : Bytes :=
  encode (object (observationMembers env stored))

def tombstoneMembers (tombstone : Tombstone) : List (List Char × Atom) :=
  [text "acceptedAt" tombstone.acceptedAt,
   text "idempotencyKeyHash" tombstone.idempotencyKeyHash,
   text "observationId" tombstone.observationId,
   text "payloadHash" tombstone.payloadHash,
   text "record" "tombstone",
   token "sequence" (Nat.toDigits 10 tombstone.sequence)]

def serializeTombstoneLine (tombstone : Tombstone) : Bytes :=
  encode (object (tombstoneMembers tombstone))

inductive ParsedLine where
  | observation (stored : StoredObservation)
  | tombstone (tombstone : Tombstone)
  deriving DecidableEq

def parseLine (env : Env) (bytes : Bytes) : Option ParsedLine :=
  match env.fromSlice bytes with
  | none => none
  | some value =>
    match value.record with
    | none => none
    | some recordType =>
      if recordType = "observation" then value.asObservation.map .observation
      else if recordType = "tombstone" then value.asTombstone.map .tombstone
      else none

/-! ## Segments -/

/-- `u8::is_ascii_whitespace`. -/
def isAsciiWhitespace (b : UInt8) : Bool :=
  b == 0x20 || b == 0x09 || b == 0x0a || b == 0x0c || b == 0x0d

structure ParsedSegment where
  observations : List StoredObservation
  tombstones : List Tombstone
  crashTailValidLen : Option Nat

/-- The loop of `tolerant_parse`, from an offset that is the start of a chunk. -/
def parseChunks (env : Env) : Nat → List Bytes → ParsedSegment
  | _, [] => ⟨[], [], none⟩
  | consumed, chunk :: rest =>
    if (content chunk).all isAsciiWhitespace then parseChunks env (consumed + chunk.length) rest
    else
      match parseLine env (content chunk) with
      | some (.observation stored) =>
        let parsed := parseChunks env (consumed + chunk.length) rest
        { parsed with observations := stored :: parsed.observations }
      | some (.tombstone tombstone) =>
        let parsed := parseChunks env (consumed + chunk.length) rest
        { parsed with tombstones := tombstone :: parsed.tombstones }
      | none =>
        -- The last chunk is a crash tail; an unreadable line before it is skipped.
        if rest.isEmpty then ⟨[], [], some consumed⟩
        else parseChunks env (consumed + chunk.length) rest

def tolerantParse (env : Env) (bytes : Bytes) : ParsedSegment := parseChunks env 0 (chunks bytes)

/-- `sort_by_key`, stable. -/
def sortByKey {α : Type} (key : α → Nat) (items : List α) : List α :=
  items.insertionSort (fun a b => key a ≤ key b)

def sequenceOf (stored : StoredObservation) : Nat := stored.observation.sequence

def entomb (evicted : StoredObservation) : Tombstone where
  idempotencyKeyHash := evicted.idempotencyKeyHash
  payloadHash := evicted.payloadHash
  observationId := evicted.observation.id
  sequence := evicted.observation.sequence
  acceptedAt := evicted.observation.observedAt

def maybeTombstone (env : Env) (now : Timestamp) (tombs : List Tombstone)
    (evicted : StoredObservation) : List Tombstone :=
  if withinWindow env now evicted.observation.observedAt then tombs ++ [entomb evicted] else tombs

def line (bytes : Bytes) : Bytes := bytes ++ [newline]

/-- The buffer of a rewrite: the tombstones, then the observations. -/
def render (env : Env) (tombs : List Tombstone) (obs : List StoredObservation) : Bytes :=
  (tombs.map (fun t => line (serializeTombstoneLine t))).flatten
    ++ (obs.map (fun o => line (serializeObservationLine env o))).flatten

def segmentSize (env : Env) (tombs : List Tombstone) (obs : List StoredObservation) : Nat :=
  (tombs.map (fun t => (serializeTombstoneLine t).length + 1)).sum
    + (obs.map (fun o => (serializeObservationLine env o).length + 1)).sum

/-- One of the two eviction loops: the oldest observation goes while the bound is
exceeded. -/
def evictWhile (env : Env) (exceeds : List Tombstone → List StoredObservation → Bool)
    (now : Timestamp) : List Tombstone → List StoredObservation →
      List Tombstone × List StoredObservation
  | tombs, [] => (tombs, [])
  | tombs, oldest :: obs =>
    if exceeds tombs (oldest :: obs) then
      evictWhile env exceeds now (maybeTombstone env now tombs oldest) obs
    else (tombs, oldest :: obs)

def tooMany (_ : List Tombstone) (obs : List StoredObservation) : Bool :=
  decide (maxSegmentObservations < obs.length)

def tooLarge (env : Env) (tombs : List Tombstone) (obs : List StoredObservation) : Bool :=
  decide (maxSegmentBytes < segmentSize env tombs obs)

/-- The newest tombstones up to the cap, sorted. -/
def capTombstones (tombs : List Tombstone) : List Tombstone :=
  if maxTombstones < tombs.length then
    let sorted := sortByKey Tombstone.sequence tombs
    sortByKey Tombstone.sequence (sorted.drop (tombs.length - maxTombstones))
  else sortByKey Tombstone.sequence tombs

def unexpired (env : Env) (now : Timestamp) (tombs : List Tombstone) : List Tombstone :=
  tombs.filter (fun t => withinWindow env now t.acceptedAt)

/-- What both eviction loops leave of the tombstones and the observations. -/
def evicted (env : Env) (now : Timestamp) (cache : SessionCache) (stored : StoredObservation) :
    List Tombstone × List StoredObservation :=
  let counted := evictWhile env tooMany now (unexpired env now cache.tombstones)
    (cache.observations ++ [stored])
  evictWhile env (tooLarge env) now counted.1 counted.2

/-- The contents of the session after a rewrite. -/
def rewritten (env : Env) (now : Timestamp) (cache : SessionCache) (stored : StoredObservation) :
    SessionCache where
  observations := sortByKey sequenceOf (evicted env now cache stored).2
  tombstones := capTombstones (evicted env now cache stored).1

/-! ## Writes -/

/-- `durable_write`: done, or failed before or after the replacement. -/
inductive WriteFate where
  | done
  | failed (replaced : Bool)
  deriving DecidableEq, Repr

/-- `append_line`: done, refused before anything was written, or an error or a crash
after the first bytes of the line and its line feed. -/
inductive AppendFate where
  | done
  | refused
  | torn (written : Nat)
  deriving DecidableEq, Repr

def durableWrite {α : Type} (file : Option α) (contents : α) : WriteFate → Bool × Option α
  | .done => (true, some contents)
  | .failed replaced => (false, if replaced then some contents else file)

def appendLine (file : Option Bytes) (bytes : Bytes) : AppendFate → Bool × Option Bytes
  | .done => (true, some (file.getD [] ++ line bytes))
  | .refused => (false, file)
  | .torn written => (false, some (file.getD [] ++ (line bytes).take written))

/-- A session in memory and on disk. -/
structure Segment where
  cache : SessionCache
  file : Option Bytes

/-- Where the record goes. -/
def appends (env : Env) (now : Timestamp) (segment : Segment) (stored : StoredObservation) : Bool :=
  (unexpired env now segment.cache.tombstones).length == segment.cache.tombstones.length
    && decide (segment.cache.observations.length + 1 ≤ maxSegmentObservations)
    && decide ((segment.file.getD []).length + ((serializeObservationLine env stored).length + 1)
        ≤ maxSegmentBytes)

def appendOrRewrite (env : Env) (now : Timestamp) (append : AppendFate) (rewrite : WriteFate)
    (segment : Segment) (stored : StoredObservation) : Bool × Segment :=
  if appends env now segment stored then
    let (ok, file) := appendLine segment.file (serializeObservationLine env stored) append
    (ok, { cache := if ok then { segment.cache with
                      observations := segment.cache.observations ++ [stored] }
                    else segment.cache,
           file := file })
  else
    let cache := rewritten env now segment.cache stored
    let (ok, file) := durableWrite segment.file (render env cache.tombstones cache.observations)
      rewrite
    (ok, { cache := if ok then cache else segment.cache, file := file })

/-! ## The spam trim -/

/-- The pass over the occurrences of one fingerprint, with their indices. -/
def dropPass (env : Env) (protectedIds : List String) :
    Option Timestamp → List (StoredObservation × Nat) → List Nat
  | _, [] => []
  | lastKeptAt, (stored, index) :: rest =>
    let at_ := env.parseRfc3339 stored.observation.observedAt
    if protectedIds.contains stored.observation.id then
      dropPass env protectedIds (at_.or lastKeptAt) rest
    else if rest.isEmpty then []
    else
      match at_ with
      | none => dropPass env protectedIds lastKeptAt rest
      | some observedAt =>
        match lastKeptAt with
        | none => dropPass env protectedIds (some observedAt) rest
        | some prevAt =>
          let gap := observedAt.nanos - prevAt.nanos
          if 0 ≤ gap ∧ gap ≤ spamWindowSecs * nanosPerSec then
            index :: dropPass env protectedIds lastKeptAt rest
          else dropPass env protectedIds (some observedAt) rest

def sessionDropIndices (env : Env) (observations : List StoredObservation)
    (protectedIds : List String) : List Nat :=
  if observations.length < 2 then []
  else
    let peon := observations.zipIdx.filter (fun p => p.1.observation.source = .peon)
    let fingerprints := (peon.map (fun p => p.1.observation.fingerprint)).dedup
    fingerprints.flatMap (fun fingerprint =>
      let indices := peon.filter (fun p => p.1.observation.fingerprint = fingerprint)
      if indices.length < 2 then [] else dropPass env protectedIds none indices)

/-- The occurrences a trim drops: those the rules drop now that were planned. -/
def drops (env : Env) (observations : List StoredObservation) (dropIds protectedIds : List String) :
    StoredObservation × Nat → Bool :=
  fun p => (sessionDropIndices env observations protectedIds).contains p.2
    && dropIds.contains p.1.observation.id

/-- The occurrences a trim drops and those it keeps, in order. -/
def trimmed (env : Env) (observations : List StoredObservation) (dropIds protectedIds : List String) :
    List StoredObservation × List StoredObservation :=
  let dropped := drops env observations dropIds protectedIds
  ((observations.zipIdx.filter dropped).map Prod.fst,
   (observations.zipIdx.filter (fun p => !dropped p)).map Prod.fst)

/-- The contents of the session after a trim. -/
def trimmedCache (env : Env) (now : Timestamp) (cache : SessionCache)
    (dropIds protectedIds : List String) : SessionCache where
  observations := (trimmed env cache.observations dropIds protectedIds).2
  tombstones := capTombstones
    ((trimmed env cache.observations dropIds protectedIds).1.foldl (maybeTombstone env now)
      (unexpired env now cache.tombstones))

/-! ## The store -/

structure Disk where
  segments : TextMap Bytes
  /-- The `sequence` file. -/
  counter : Option String

structure StoreInner where
  lastIssuedSequence : Nat
  degraded : Bool
  idempotency : String → String → Option IdempotencyEntry
  sessionCache : TextMap SessionCache

/-- The open store and its directory. -/
structure World where
  disk : Disk
  inner : StoreInner

/-- `parse::<u64>` of the trimmed text. -/
def parseU64 (value : String) : Option Nat :=
  let chars := Lib.Text.trim value.toList
  let digits := if chars.head? = some '+' then chars.tail else chars
  if digits ≠ [] ∧ digits.all Char.isDigit = true ∧ Nat.ofDigitChars 10 digits 0 < 2 ^ 64
  then some (Nat.ofDigitChars 10 digits 0) else none

/-- What becomes of a journal when the store is opened: it cannot be read, or it is
read and its crash tail, if it has one, is cut off or stays. -/
inductive OpenFate where
  | unreadable
  | read (truncated : Bool)
  deriving DecidableEq, Repr

def observationEntry (stored : StoredObservation) : String × IdempotencyEntry :=
  (stored.idempotencyKeyHash,
    ⟨stored.observation.id, stored.observation.sequence, stored.observation.observedAt,
      stored.payloadHash⟩)

def tombstoneEntry (tombstone : Tombstone) : String × IdempotencyEntry :=
  (tombstone.idempotencyKeyHash,
    ⟨tombstone.observationId, tombstone.sequence, tombstone.acceptedAt, tombstone.payloadHash⟩)

/-- The entries of a journal that still count, in the order `open` inserts them. -/
def parsedEntries (env : Env) (now : Timestamp) (parsed : ParsedSegment) :
    List (String × IdempotencyEntry) :=
  ((parsed.observations.map observationEntry) ++ (parsed.tombstones.map tombstoneEntry)).filter
    (fun p => withinWindow env now p.2.acceptedAt)

/-- A map after the entries were inserted one by one. -/
def inserted (entries : List (String × IdempotencyEntry)) : String → Option IdempotencyEntry :=
  entries.foldl (fun map p => Function.update map p.1 (some p.2)) (fun _ => none)

def openedCache (parsed : ParsedSegment) : SessionCache where
  observations := sortByKey sequenceOf parsed.observations
  tombstones := sortByKey Tombstone.sequence parsed.tombstones

/-- The journal after `open`. -/
def openedFile (env : Env) (fate : OpenFate) (bytes : Bytes) : Bytes :=
  match fate, (tolerantParse env bytes).crashTailValidLen with
  | .read true, some validLen => bytes.take validLen
  | _, _ => bytes

def maxParsedSequence (parsed : ParsedSegment) : Nat :=
  ((parsed.observations.map sequenceOf) ++ (parsed.tombstones.map Tombstone.sequence)).foldl max 0

/-- The journals that could be read. -/
def readSegments (env : Env) (fates : String → OpenFate) (disk : Disk) : TextMap ParsedSegment :=
  disk.segments.filterMap (fun sessionId bytes =>
    if fates sessionId = .unreadable then none else some (tolerantParse env bytes))

def openStore (env : Env) (now : Timestamp) (fates : String → OpenFate) (disk : Disk) : World :=
  let parsed := readSegments env fates disk
  let maxSeenSequence := (parsed.toList.map (fun p => maxParsedSequence p.2)).foldl max 0
  { disk := { disk with segments := disk.segments.map (fun sessionId => openedFile env (fates sessionId)) }
    inner :=
      { lastIssuedSequence :=
          match disk.counter with
          | none => maxSeenSequence
          | some value =>
            match parseU64 value with
            | some counter => max counter maxSeenSequence
            | none => 0
        degraded := disk.counter.any (fun value => (parseU64 value).isNone)
        idempotency := fun sessionId key =>
          parsed[sessionId]?.bind (fun p => inserted (parsedEntries env now p) key)
        sessionCache := parsed.map (fun _ p => openedCache p) } }

namespace World

variable (env : Env)

def segment (world : World) (sessionId : String) : Segment where
  cache := world.inner.sessionCache[sessionId]?.getD SessionCache.empty
  file := world.disk.segments[sessionId]?

def setFile (world : World) (sessionId : String) (file : Option Bytes) : World :=
  { world with disk := { world.disk with segments :=
      match file with
      | some bytes => world.disk.segments.insert sessionId bytes
      | none => world.disk.segments.erase sessionId } }

def setCache (world : World) (sessionId : String) (cache : SessionCache) : World :=
  { world with inner := { world.inner with
      sessionCache := world.inner.sessionCache.insert sessionId cache } }

def setEntry (world : World) (sessionId key : String) (entry : Option IdempotencyEntry) : World :=
  { world with inner := { world.inner with
      idempotency := Function.update world.inner.idempotency sessionId
        (Function.update (world.inner.idempotency sessionId) key entry) } }

def setSequence (world : World) (sequence : Nat) : World :=
  { world with inner := { world.inner with lastIssuedSequence := sequence } }

def setCounter (world : World) (counter : Option String) : World :=
  { world with disk := { world.disk with counter := counter } }

def forget (world : World) (sessionId : String) : World :=
  { world with inner := { world.inner with
      sessionCache := world.inner.sessionCache.erase sessionId
      idempotency := Function.update world.inner.idempotency sessionId (fun _ => none) } }

end World

/-! ## Recording -/

/-- A call of `record_observation`, with the time it reads and the id it draws. -/
structure RecordCall where
  sessionId : String
  origin : ObservationOrigin
  idempotencyKey : String
  candidate : ObservationCandidate
  now : Timestamp
  id : String

/-- The fates of the three writes a call may make. -/
structure RecordFates where
  counter : WriteFate
  append : AppendFate
  rewrite : WriteFate

def RecordFates.done : RecordFates := ⟨.done, .done, .done⟩

/-- What a call is before the store is looked at. -/
structure Submission where
  source : ObservationSource
  confidence : ℚ
  problemArea : Option String
  fingerprint : String
  keyHash : String
  payloadHash : String

def submission (env : Env) (call : RecordCall) : Except RecordError Submission :=
  if (Lib.Text.trim call.sessionId.toList).isEmpty then .error .emptySessionId
  else if call.idempotencyKey.isEmpty then .error .emptyIdempotencyKey
  else
    match validateCandidate env call.origin call.candidate with
    | .error e => .error e
    | .ok (source, confidence) =>
      match canonicalArea env call.candidate.problemArea with
      | .error e => .error e
      | .ok problemArea =>
        .ok { source := source
              confidence := confidence
              problemArea := problemArea
              fingerprint :=
                match problemArea with
                | some area => fingerprintV2 env call.candidate.kind area
                | none => "v1:" ++ kindText call.candidate.kind ++ ":"
                    ++ String.ofList (normalizeDescription env call.candidate.description.toList)
              keyHash := hashKey env call.sessionId call.idempotencyKey
              payloadHash := hashPayload env call.candidate.kind call.candidate.description
                call.candidate.evidence call.candidate.reportedImpact problemArea }

/-- The answer a remembered key gives, if it still counts. -/
def remembered (env : Env) (now : Timestamp) (payloadHash : String) (entry : IdempotencyEntry) :
    Option (Except RecordError RecordOutcome) :=
  if withinWindow env now entry.acceptedAt then
    if entry.payloadHash = payloadHash then
      some (.ok (.duplicate entry.observationId entry.sequence entry.acceptedAt))
    else some (.error .idempotencyConflict)
  else none

def acceptedInWindow (env : Env) (now : Timestamp) (cache : SessionCache) : Nat :=
  (cache.observations.filter (fun o => withinRateWindow env now o.observation.observedAt)).length
    + (cache.tombstones.filter (fun t => withinRateWindow env now t.acceptedAt)).length

def storedObservation (env : Env) (call : RecordCall) (sub : Submission) (sequence : Nat) :
    StoredObservation where
  observation :=
    { id := call.id
      sequence := sequence
      sessionId := call.sessionId
      observedAt := env.toRfc3339 call.now
      kind := call.candidate.kind
      description := call.candidate.description
      evidence := call.candidate.evidence
      problemArea := sub.problemArea
      reportedImpact := call.candidate.reportedImpact
      source := sub.source
      confidence := sub.confidence
      fingerprint := sub.fingerprint }
  idempotencyKeyHash := sub.keyHash
  payloadHash := sub.payloadHash

/-- The end of `record_locked`, from the append on. -/
def persist (env : Env) (call : RecordCall) (fates : RecordFates) (stored : StoredObservation)
    (world : World) : Except RecordError RecordOutcome × World :=
  let (ok, segment) := appendOrRewrite env call.now fates.append fates.rewrite
    (world.segment call.sessionId) stored
  let world := (world.setFile call.sessionId segment.file).setCache call.sessionId segment.cache
  if ok then
    (.ok (.accepted stored.observation),
      world.setEntry call.sessionId stored.idempotencyKeyHash (some (observationEntry stored).2))
  else (.error .persistFailed, world)

/-- `record_locked` from the sequence number on. `last_issued_sequence + 1` wraps in a
release build. -/
def issue (env : Env) (call : RecordCall) (fates : RecordFates) (sub : Submission) (world : World) :
    Except RecordError RecordOutcome × World :=
  let sequence := (world.inner.lastIssuedSequence + 1) % 2 ^ 64
  let (ok, counter) := durableWrite world.disk.counter (toString sequence) fates.counter
  let world := world.setCounter counter
  if ok then
    persist env call fates (storedObservation env call sub sequence) (world.setSequence sequence)
  else (.error .persistFailed, world)

def recordObservation (env : Env) (call : RecordCall) (fates : RecordFates) (world : World) :
    Except RecordError RecordOutcome × World :=
  match submission env call with
  | .error e => (.error e, world)
  | .ok sub =>
    if world.inner.degraded then (.error .degraded, world)
    else
      match (world.inner.idempotency call.sessionId sub.keyHash).bind
          (remembered env call.now sub.payloadHash) with
      | some answer => (answer, world)
      | none =>
        -- An entry that no longer counts is dropped.
        let world := world.setEntry call.sessionId sub.keyHash none
        if maxAcceptedPerSessionMinute
            ≤ acceptedInWindow env call.now (world.segment call.sessionId).cache then
          (.error .rateLimited, world)
        else issue env call fates sub world

/-! ## Trim, deletion, restart -/

/-- `apply_trim_session`; `none` is an I/O error. -/
def applyTrimSession (env : Env) (sessionId : String) (dropIds protectedIds : List String)
    (now : Timestamp) (fate : WriteFate) (world : World) : Option (List String) × World :=
  if world.inner.degraded then (some [], world)
  else
    match world.inner.sessionCache[sessionId]? with
    | none => (some [], world)
    | some cache =>
      let dropped := (trimmed env cache.observations dropIds protectedIds).1
      if dropped.isEmpty then (some [], world)
      else
        let cache := trimmedCache env now cache dropIds protectedIds
        let (ok, file) := durableWrite world.disk.segments[sessionId]?
          (render env cache.tombstones cache.observations) fate
        let world := world.setFile sessionId file
        if ok then (some (dropped.map (·.observation.id)), world.setCache sessionId cache)
        else (none, world)

/-- `delete_session_observations` and its durable variant: removed and forgotten, or an
error before or after the journal was unlinked. -/
inductive DeleteFate where
  | done
  | failed (unlinked : Bool)
  deriving DecidableEq, Repr

def deleteSessionObservations (sessionId : String) (fate : DeleteFate) (world : World) : World :=
  match fate with
  | .done => (world.setFile sessionId none).forget sessionId
  | .failed true => world.setFile sessionId none
  | .failed false => world

def sessionObservations (world : World) (sessionId : String) : List WorkflowObservation :=
  (world.segment sessionId).cache.observations.map StoredObservation.observation

inductive Event where
  | record (call : RecordCall) (fates : RecordFates)
  | trim (sessionId : String) (dropIds protectedIds : List String) (now : Timestamp)
      (fate : WriteFate)
  | delete (sessionId : String) (fate : DeleteFate)
  | reopen (now : Timestamp) (fates : String → OpenFate)

def step (env : Env) (world : World) : Event → World
  | .record call fates => (recordObservation env call fates world).2
  | .trim sessionId dropIds protectedIds now fate =>
    (applyTrimSession env sessionId dropIds protectedIds now fate world).2
  | .delete sessionId fate => deleteSessionObservations sessionId fate world
  | .reopen now fates => openStore env now fates world.disk

def acceptedBy (env : Env) (world : World) : Event → Option WorkflowObservation
  | .record call fates =>
    match (recordObservation env call fates world).1 with
    | .ok (.accepted observation) => some observation
    | _ => none
  | _ => none

def run (env : Env) (world : World) (events : List Event) : World := events.foldl (step env) world

/-- The accepted observations of a run, in the order of acceptance. -/
def accepted (env : Env) : World → List Event → List WorkflowObservation
  | _, [] => []
  | world, event :: events => (acceptedBy env world event).toList ++ accepted env (step env world event) events

/-- The store on an empty directory. -/
def World.fresh : World where
  disk := ⟨∅, none⟩
  inner := ⟨0, false, fun _ _ => none, ∅⟩

end Orkworksd.Observations
