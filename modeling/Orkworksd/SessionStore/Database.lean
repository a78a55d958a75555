import Orkworksd.Lib.JsonValue
import Orkworksd.Metadata.AgentPatch
import Orkworksd.Metadata.SessionTransactions

/- The session database (`session_store.rs`, `session_store/internal_mutations.rs`,
   `session_store/deletion_recovery.rs`).

   A table is a map from its primary key to its row, and a row of a child table goes with
   the session it refers to (`deleteSession`). An operation is one immediate transaction:
   it answers with the tables as it commits them, or with the error it is rolled back for.
   The columns that only the retention reads (outcome, retention) are left out, and so are
   the attention owners, which live in memory.

   What serde derives for a session record, how a value is written as text and how a time is
   read are parameters (`Codec`); `Codec.Lawful` says of them what this development uses. -/
namespace Orkworksd.SessionStore
open Lib Metadata
open Metadata.AgentPatches (AgentPatchEnvelope AgentPatchError Surroundings)

def maxRecord : Nat := 1024 * 1024
def i64Max : Nat := 2 ^ 63 - 1
def i64Min : Int := -2 ^ 63

inductive StoreError where
  | invalid (message : String)
  /-- An error of `serde_json`, or of a constraint of the schema. -/
  | json
  | sql
  | io (message : String)
  | tooLarge
  | conflict
  | missing
  | corrupt
  | unauthorized
  | expired
  deriving DecidableEq, Repr

structure Codec where
  /-- `serde_json::to_value` of a record: the members of an object. -/
  toValue : RevisionedSession → Members
  /-- `serde_json::from_value`. -/
  fromValue : Json → Option RevisionedSession
  /-- The length of the JSON text. -/
  size : Json → Nat
  /-- The text of a value, read again. -/
  reread : Json → Option Json
  /-- SQLite's `json_valid` of the text. -/
  jsonValid : Json → Bool
  /-- `chrono::DateTime::parse_from_rfc3339`, as microseconds. -/
  timestampMicros : String → Option Int

/-! ## Tables -/

inductive RowState where
  | active
  | closed
  | archived
  | unknown
  deriving DecidableEq, Repr

structure SessionRow where
  createdAt : String
  revision : Nat
  metadata : Json
  state : RowState
  harness : String
  model : String
  title : String
  summary : Option String
  repository : Option String
  branch : Option String
  nativeId : String
  recency : Int
  searchRowid : Nat
  deleted : Bool

inductive Choice where
  | closed
  | archived
  deriving DecidableEq, Repr

structure OrganizationRow where
  createdAt : String
  choice : Choice
  revision : Nat
  deriving DecidableEq, Repr

structure SearchRow where
  id : String
  title : String
  summary : Option String
  repository : Option String
  branch : Option String
  nativeId : String
  deriving DecidableEq, Repr

structure DeletionJob where
  createdAt : String
  progress : BitVec 8
  deriving DecidableEq, Repr

structure Database where
  sessions : OrderedMap String SessionRow
  organization : OrderedMap String OrganizationRow
  metadataSearch : OrderedMap Nat SearchRow
  deletionJobs : OrderedMap String DeletionJob
  generation : Nat

def Database.create : Database := ⟨[], [], [], [], 0⟩

abbrev Result (α : Type) : Type := Except StoreError α

/-! ## Documents -/

def RowState.ofRecorded : RecordedState → RowState
  | .closed => .closed
  | .active => .active
  | .unknown => .unknown

section codec
variable (codec : Codec)

def checkSize (document : Json) : Result Unit :=
  if maxRecord < codec.size document then .error .tooLarge else .ok ()

/-- The aliases of members that are stored under another name. -/
def aliases : List String := ["harness", "model", "phase", "providerId", "providerLabel"]

def mergeKnown (original : Json) (old new : Members) : Result Json :=
  match original with
  | .object _ =>
    match Json.mergeMember original (.object old) (.object new) with
    | .object merged => .ok (.object (aliases.foldl OrderedMap.erase merged))
    | _ => .error .corrupt
  | _ => .error (.invalid "metadata must be an object")

/-- `valid_identity`, written out in `canonical` too. -/
def validIdentity (id created : String) : Bool :=
  id.utf8ByteSize ≠ 0 && id.utf8ByteSize ≤ 256 && created.utf8ByteSize ≠ 0 &&
    created.utf8ByteSize ≤ 256 && id.toList.all (fun c => c.isAlphanum || c == '-' || c == '_')

def canonical (document : Json) : Result (Json × RevisionedSession) := do
  checkSize codec document
  match codec.fromValue document with
  | none => .error .json
  | some record =>
    if !validIdentity record.metadata.id record.metadata.createdAt then
      .error (.invalid "invalid creation identity")
    else
      let normalized := { record with metadata := normalizeSessionMetadata record.metadata }
      let document ← mergeKnown document (codec.toValue record) (codec.toValue normalized)
      checkSize codec document
      .ok (document, normalized)

/-- `/resume/harnessSessionId`. -/
def nativeId (document : Json) : String :=
  match document.asObject.bind (OrderedMap.get · "resume") with
  | some (.object resume) => (Members.text resume "harnessSessionId").getD ""
  | _ => ""

def readDocument (db : Database) (id : String) (deleted : Bool) : Result (Option Json) :=
  match (db.sessions.get id).filter (fun row => row.deleted = deleted) with
  | none => .ok none
  | some row =>
    if maxRecord < codec.size row.metadata then .error .tooLarge
    else
      match codec.reread row.metadata with
      | none => .error .json
      | some document =>
        match codec.fromValue document with
        | none => .error .json
        | some record =>
          if record.metadata.id ≠ id ∨ record.metadata.createdAt ≠ row.createdAt ∨
              record.revision ≠ row.revision then .error .corrupt
          else .ok (some document)

/-- The visible document of a session, and its record. -/
def readRecord (db : Database) (id : String) (absent : StoreError) :
    Result (Json × RevisionedSession) := do
  match ← readDocument codec db id false with
  | none => .error absent
  | some document =>
    match codec.fromValue document with
    | none => .error .json
    | some record => .ok (document, record)

def requireFinalizedSession (db : Database) (id created : String) : Result Unit := do
  let (_, record) ← readRecord codec db id .conflict
  if record.metadata.createdAt ≠ created ∨ recordedState record.metadata ≠ .closed then
    .error .conflict
  else .ok ()

/-- `coalesce(max(search_rowid),0)`. -/
def maxSearchRowid : OrderedMap String SessionRow → Nat
  | [] => 0
  | (_, row) :: sessions => max row.searchRowid (maxSearchRowid sessions)

def SessionRow.searchRow (row : SessionRow) (id : String) : SearchRow where
  id := id
  title := row.title
  summary := row.summary
  repository := row.repository
  branch := row.branch
  nativeId := row.nativeId

/-- An archived choice goes before the recorded state. -/
def persistedState (db : Database) (m : SessionMetadata) : RowState :=
  let chosen := (db.organization.get m.id).filter (fun row => row.createdAt = m.createdAt)
  if chosen.any (fun row => row.choice = .archived) then .archived
  else .ofRecorded (recordedState m)

/-- The latest of some times. -/
def latest : List Int → Option Int
  | [] => none
  | time :: times => some ((latest times).elim time (fun t => if t ≤ time then time else t))

/-- The latest of the two activity times that can be read, or else the creation time. -/
def recency (m : SessionMetadata) : Int :=
  let active := [m.lastOutputAt, some m.lastActivity].filterMap (·.bind codec.timestampMicros)
  ((latest active).or (codec.timestampMicros m.createdAt)).getD i64Min

def searchKey (db : Database) (id : String) : Nat :=
  match db.sessions.get id with
  | some row => row.searchRowid
  | none => maxSearchRowid db.sessions + 1

/-- The row is inserted, or updated except for its creation time, its search key and its
tombstone. -/
def persistedRow (db : Database) (document : Json) (record : RevisionedSession) : SessionRow :=
  let m := record.metadata
  let stored := db.sessions.get m.id
  { createdAt := (stored.map (fun row => row.createdAt)).getD m.createdAt
    revision := record.revision
    metadata := document
    state := persistedState db m
    harness := m.harness
    model := m.model
    title := m.label
    summary := m.summary
    repository := m.repoRoot
    branch := m.branch
    nativeId := nativeId document
    recency := recency codec m
    searchRowid := searchKey db m.id
    deleted := (stored.map (fun row => row.deleted)).getD false }

def persist (db : Database) (document : Json) (record : RevisionedSession) : Result Database :=
  let id := record.metadata.id
  let key := searchKey db id
  if i64Max < key then .error (.invalid "search identity exhausted")
  else if codec.jsonValid document = false ∨ maxRecord < codec.size document then .error .sql
  else
    let row := persistedRow codec db document record
    .ok { db with
      sessions := db.sessions.set id row
      metadataSearch := (db.metadataSearch.erase key).set key (row.searchRow id) }

def bumpGeneration (db : Database) : Result Database :=
  if db.generation < i64Max then .ok { db with generation := db.generation + 1 }
  else .error (.invalid "history generation exhausted")

/-! ## Operations -/

def insert (db : Database) (document : Json) : Result Database := do
  let (document, record) ← canonical codec document
  if (db.sessions.get record.metadata.id).isSome then .error .conflict
  else
    let db ← persist codec db document record
    bumpGeneration db

def createSession (db : Database) (document : Json) : Result Database :=
  match document with
  | .object members =>
    insert codec db (.object (OrderedMap.set members "metadataRevision" (.string "1")))
  | _ => .error (.invalid "metadata must be an object")

def get (db : Database) (id : String) : Result (Option Json) := readDocument codec db id false

/-- How `session_store.rs` answers for a patch that failed. -/
def StoreError.ofPatch : AgentPatchError → StoreError
  | .conflict => .conflict
  | .unauthorized => .unauthorized
  | .badRequest => .invalid "invalid agent metadata"
  | .io => .io ""

/-- The two times that a scope stamps. -/
def stamp (scope : WriteScope) (now : String) (m : SessionMetadata) : SessionMetadata :=
  { m with provenance := { m.provenance with
      attentionUpdatedAt :=
        if scope.attention then some now else m.provenance.attentionUpdatedAt
      workMetadataUpdatedAt :=
        if scope.work then some now else m.provenance.workMetadataUpdatedAt } }

def nextOf (revision : Nat) : Result Nat :=
  match nextRevision revision with
  | .ok next => .ok next
  | .error _ => .error (.io "metadata revision exhausted")

/-- `patch`: an envelope that was read, what it meets outside the record, and the time of the
stamps. -/
def patch (db : Database) (id : String) (envelope : Option AgentPatchEnvelope)
    (env : Surroundings) (now : String) : Result Database := do
  match envelope with
  | none => .error .json
  | some envelope =>
    let (original, record) ← readRecord codec db id .missing
    if record.revision ≠ envelope.metadataRevision then .error .conflict
    else
      let next ← nextOf record.revision
      let metadata ← (envelope.patch.applyChecked env record.metadata).mapError .ofPatch
      let changed : RevisionedSession :=
        { metadata := stamp envelope.patch.scope now metadata, revision := next }
      let document ← mergeKnown original (codec.toValue record) (codec.toValue changed)
      checkSize codec document
      let db ← persist codec db document changed
      if changed.metadata.lifecycle ≠ "alive" then bumpGeneration db else .ok db

/-- The document, the state and the organization revision of a visible session. -/
def organizationState (db : Database) (id : String) :
    Result (Option (Json × RowState × Nat)) := do
  match ← readDocument codec db id false with
  | none => .ok none
  | some document =>
    match (db.sessions.get id).filter (fun row => row.deleted = false) with
    | none => .error .sql
    | some row =>
      let chosen := (db.organization.get id).filter (fun o => o.createdAt = row.createdAt)
      .ok (some (document, row.state, (chosen.map (fun o => o.revision)).getD 0))

def Choice.state : Choice → RowState
  | .closed => .closed
  | .archived => .archived

/-- `organize`; another text than the two choices is refused. -/
def organize (db : Database) (id created revision : String) (choice : Option Choice) :
    Result Database := do
  match choice with
  | none => .error (.invalid "active is runtime-derived")
  | some choice =>
    let visible := (db.sessions.get id).filter
      (fun row => row.createdAt = created && row.deleted = false)
    if !visible.any (fun row => row.state = .closed || row.state = .archived) then
      .error .conflict
    else
      requireFinalizedSession codec db id created
      let stored := db.organization.get id
      let current := (stored.map (fun o => o.revision)).getD 0
      if toString current ≠ revision then .error .conflict
      else
        let next ← nextOf current
        let row : OrganizationRow :=
          { createdAt := (stored.map (fun o => o.createdAt)).getD created
            choice := choice
            revision := next }
        let sessions := match db.sessions.get id with
          | some session => db.sessions.set id { session with state := choice.state }
          | none => db.sessions
        bumpGeneration { db with
          organization := db.organization.set id row
          sessions := sessions }

def beginDelete (db : Database) (id created revision organizationRevision : String) :
    Result Database := do
  let visible := (db.sessions.get id).filter
    (fun row => row.createdAt = created && row.deleted = false)
  let chosen := (db.organization.get id).filter (fun o => o.createdAt = created)
  let currentOrganization := (chosen.map (fun o => o.revision)).getD 0
  if toString currentOrganization ≠ organizationRevision ∨
      !visible.any (fun row =>
        (row.state = .closed || row.state = .archived) && toString row.revision = revision) then
    .error .conflict
  else
    requireFinalizedSession codec db id created
    if (db.deletionJobs.get id).isSome then .error .sql
    else
      match db.sessions.get id with
      | none => .error .sql
      | some row =>
        bumpGeneration { db with
          deletionJobs := db.deletionJobs.set id { createdAt := created, progress := 0 }
          sessions := db.sessions.set id { row with deleted := true }
          metadataSearch := db.metadataSearch.erase row.searchRowid }

/-- `DELETE FROM sessions` of one row, with the rows whose foreign key refers to it. -/
def deleteSession (db : Database) (id created : String) : Database :=
  { db with
    sessions := db.sessions.erase id
    organization :=
      if (db.organization.get id).any (fun o => o.createdAt = created) then
        db.organization.erase id
      else db.organization
    deletionJobs :=
      if (db.deletionJobs.get id).any (fun job => job.createdAt = created) then
        db.deletionJobs.erase id
      else db.deletionJobs }

def deletionProgress (db : Database) (id created : String) (progress : BitVec 8)
    (complete : Bool) : Result Database :=
  match (db.deletionJobs.get id).filter (fun job => job.createdAt = created) with
  | none => .error .conflict
  | some job =>
    if job.progress &&& progress ≠ job.progress then .error .conflict
    else if complete then
      let tombstone := (db.sessions.get id).filter
        (fun row => row.createdAt = created && row.deleted = true)
      .ok (if tombstone.isSome then deleteSession db id created else db)
    else .ok { db with deletionJobs := db.deletionJobs.set id { job with progress := progress } }

/-- The intents that need a proof of attention ownership. -/
def needsProof : InternalMutation → Bool
  | .hookCompletion _ _ _ => true
  | .nativeClearWait _ => true
  | _ => false

/-- `mutate_internal_owned`: `proof` is whether a given proof is still owned, `ready` whether
the intent is ready before the transaction and at its end. -/
def mutateInternal (env : Env) (db : Database) (id created : String) (expected : Option Nat)
    (proof : Option Bool) (intent : InternalMutation) (ready : Bool × Bool) (now : String) :
    Result Database := do
  if needsProof intent ≠ proof.isSome ∨ proof = some false then .error .conflict
  else if !ready.1 then .error .expired
  else
    let (original, record) ← readRecord codec db id .missing
    if record.metadata.createdAt ≠ created ∨ expected.any (· ≠ record.revision) then
      .error .conflict
    else
      let applied := intent.apply env (normalizeSessionMetadata record.metadata)
      match applied.2 with
      | .error (.invalidInput message) => .error (.invalid message)
      | .error .panicked => .error (.io "panicked")
      | .ok decision =>
        match decision.scope with
        | none => .ok db
        | some scope =>
          if applied.1.id ≠ id ∨ applied.1.createdAt ≠ created ∨
              applied.1.workspace ≠ record.metadata.workspace then .error .conflict
          else
            let next ← nextOf record.revision
            let changed : RevisionedSession :=
              { metadata := stamp scope now applied.1, revision := next }
            let document ← mergeKnown original (codec.toValue record) (codec.toValue changed)
            checkSize codec document
            let historical := (db.sessions.get id).any (fun row => row.state ≠ .active)
            let db ← persist codec db document changed
            let newHistorical := (db.sessions.get id).any (fun row => row.state ≠ .active)
            let db ← if historical || newHistorical then bumpGeneration db else .ok db
            if !ready.2 then .error .expired else .ok db

/-- `deletion_record`: the progress of a job and the document of its tombstone. -/
def deletionRecord (db : Database) (id created : String) :
    Result (Option (BitVec 8 × Json)) := do
  if !validIdentity id created then .error (.invalid "invalid creation identity")
  else
    match (db.deletionJobs.get id).filter (fun job => job.createdAt = created) with
    | none => .ok none
    | some job =>
      let parent := (db.sessions.get id).filter (fun row => row.createdAt = created)
      if !parent.any (fun row => row.deleted) then .error .corrupt
      else
        match ← readDocument codec db id true with
        | none => .error .corrupt
        | some document =>
          match codec.fromValue document with
          | none => .error .json
          | some record =>
            if record.metadata.createdAt ≠ created ∨ recordedState record.metadata ≠ .closed then
              .error .corrupt
            else .ok (some (job.progress, document))

end codec

/-! ## Runs -/

inductive Call where
  | insert (document : Json)
  | createSession (document : Json)
  | patch (id : String) (envelope : Option AgentPatchEnvelope) (env : Surroundings)
      (now : String)
  | mutateInternal (env : Env) (id created : String) (expected : Option Nat)
      (proof : Option Bool) (intent : InternalMutation) (ready : Bool × Bool) (now : String)
  | organize (id created revision : String) (choice : Option Choice)
  | beginDelete (id created revision organizationRevision : String)
  | deletionProgress (id created : String) (progress : BitVec 8) (complete : Bool)

def Call.run (codec : Codec) (db : Database) : Call → Result Database
  | .insert document => SessionStore.insert codec db document
  | .createSession document => SessionStore.createSession codec db document
  | .patch id envelope env now => SessionStore.patch codec db id envelope env now
  | .mutateInternal env id created expected proof intent ready now =>
    SessionStore.mutateInternal codec env db id created expected proof intent ready now
  | .organize id created revision choice =>
    SessionStore.organize codec db id created revision choice
  | .beginDelete id created revision organizationRevision =>
    SessionStore.beginDelete codec db id created revision organizationRevision
  | .deletionProgress id created progress complete =>
    SessionStore.deletionProgress db id created progress complete

/-- What the tables hold after a call: those it committed, or those it found. -/
def Call.after (codec : Codec) (db : Database) (call : Call) : Database :=
  match call.run codec db with
  | .ok db' => db'
  | .error _ => db

end Orkworksd.SessionStore
