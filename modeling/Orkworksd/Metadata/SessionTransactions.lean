import Orkworksd.Lib.Run
import Orkworksd.Lib.TextMap
import Orkworksd.Metadata.Normalize
import Orkworksd.Metadata.MutationScope

/- The writes of one session's record: `MetadataStore` of `metadata.rs`,
   `metadata/session_transactions.rs` and `AttentionOwner` of
   `runtime/observed_status.rs`.

   The session lane runs one operation at a time, so an operation is a function from the
   store before it to the store after it and its answer, and an interleaving is a run of
   such operations. What one call meets outside the store is in its `Io`: the clock, the
   modification time it reads, and which file operation fails. A file is kept as the
   record serde reads back out of it. A token holds the `Arc` of the owner that issued it,
   so the address of a live token's owner is not given out again: an identity is the
   number of owners made before it. The staged file of a replacement is read by nobody
   and left out. -/
namespace Orkworksd.Metadata
open Orkworksd.Lib

def u64Limit : Nat := 2 ^ 64

inductive SessionError where
  | conflict
  | notFound (message : String)
  | invalidData (message : String)
  | invalidInput (message : String)
  | io
  deriving DecidableEq, Repr

/-- `AttentionOwner`; no revision once the counter is exhausted. -/
structure AttentionOwner where
  identity : Nat
  revision : Option Nat
  deriving DecidableEq, Repr

/-- `SessionWriteToken` with its `AttentionWriteToken`. -/
structure SessionWriteToken where
  session : String
  identity : Nat
  revision : Nat
  deriving DecidableEq, Repr

namespace AttentionOwner

/-- `checked_add(1)` on the revision. -/
def advance (owner : AttentionOwner) : AttentionOwner :=
  { owner with
    revision := owner.revision.bind (fun r => if r + 1 < u64Limit then some (r + 1) else none) }

def snapshot (session : String) (owner : AttentionOwner) : Option SessionWriteToken :=
  owner.revision.map (fun revision => { session, identity := owner.identity, revision })

def owns (owner : AttentionOwner) (token : SessionWriteToken) : Bool :=
  owner.identity == token.identity && owner.revision == some token.revision

end AttentionOwner

structure RevisionedSession where
  metadata : SessionMetadata
  revision : Nat

/-- `MetadataRevision::next`. -/
def nextRevision (revision : Nat) : Except SessionError Nat :=
  if revision + 1 < u64Limit then .ok (revision + 1)
  else .error (.invalidData "metadata revision exhausted")

/-- `sessions/<id>.json`. -/
inductive StoredFile where
  | record (session : RevisionedSession)
  | malformed

structure Store where
  files : TextMap StoredFile
  /-- `session_writes`. -/
  owners : TextMap AttentionOwner
  /-- How many owners were made so far. -/
  identities : Nat

/-- `MetadataStore::new` over the files it finds. -/
def Store.opened (files : TextMap StoredFile) : Store := { files, owners := ∅, identities := 0 }

/-- What one call meets outside the store. -/
structure Io where
  now : String
  modified : Option String
  readFails : Bool := false
  dirFails : Bool := false
  stageFails : Bool := false
  renameFails : Bool := false
  removeStageFails : Bool := false
  removeFails : Bool := false
  removeCorruptFails : Bool := false
  deriving DecidableEq, Repr

def hydrateLegacy (p : MetadataProvenance) (legacySource : String) (legacyConfidence : F64)
    (modified : Option String) : MetadataProvenance :=
  let p :=
    if p.attentionSource.isNone && p.attentionOrigin.isNone then
      { p with
        attentionSource := some (if legacySource == "codex_hook" then "agent" else legacySource)
        attentionConfidence := some legacyConfidence
        attentionOrigin := some "legacy_unknown" }
    else p
  { p with
    attentionUpdatedAt :=
      if p.attentionUpdatedAt.isNone && p.attentionOrigin == some "legacy_unknown" then modified
      else p.attentionUpdatedAt
    workMetadataUpdatedAt := p.workMetadataUpdatedAt.or modified }

/-- A stored record as every reader sees it. -/
def RevisionedSession.read (io : Io) (r : RevisionedSession) : RevisionedSession :=
  let m := normalizeSessionMetadata r.metadata
  { r with
    metadata := { m with
      provenance := hydrateLegacy m.provenance m.metadataSource m.metadataConfidence io.modified } }

namespace Store

/-- `try_read_revisioned_session`. -/
def tryReadRevisionedSession (io : Io) (id : String) (s : Store) :
    Except SessionError (Option RevisionedSession) :=
  if io.readFails then .error .io
  else
    match s.files[id]? with
    | none => .ok none
    | some .malformed => .error (.invalidData "malformed session record")
    | some (.record r) =>
      if r.metadata.id != id then .error (.invalidData "session identity mismatch")
      else .ok (some (r.read io))

/-- The read of every operation that needs a record. -/
def latest (io : Io) (id : String) (s : Store) : Except SessionError RevisionedSession :=
  match s.tryReadRevisionedSession io id with
  | .error e => .error e
  | .ok none => .error (.notFound "session record missing")
  | .ok (some record) => .ok record

def acceptSessionWrite (id : String) (s : Store) : Store × Option SessionWriteToken :=
  match s.owners[id]? with
  | some owner =>
    ({ s with owners := s.owners.insert id owner.advance }, owner.advance.snapshot id)
  | none =>
    let owner : AttentionOwner := { identity := s.identities, revision := some 0 }
    ({ s with owners := s.owners.insert id owner.advance, identities := s.identities + 1 },
      owner.advance.snapshot id)

def owned (id : String) (token : SessionWriteToken) (s : Store) : Bool :=
  token.session == id && s.owners[id]?.any (fun owner => owner.owns token)

def replace (id : String) (record : RevisionedSession) (s : Store) : Store :=
  { s with files := s.files.insert id (.record record) }

end Store

/-- What an operation answers. -/
inductive Answer where
  | failed (error : SessionError)
  /-- `Ok(None)` or `Ok(false)`: nothing was written. -/
  | declined
  | committed (attention : Bool) (token : Option SessionWriteToken)
  /-- The token of a read, if there was one. -/
  | snapshot (token : Option SessionWriteToken)
  | deleted
  deriving DecidableEq, Repr

/-- A mutation of the record in the lane: an error drops what it wrote. -/
abbrev Mutate (α : Type) := SessionMetadata → Except SessionError (SessionMetadata × α)

namespace Store

def commitSessionRecord (io : Io) (id : String) (metadata : SessionMetadata) (scope : WriteScope)
    (next : Nat) (beforeReplace : SessionMetadata → Except SessionError Unit) (s : Store) :
    Store × Answer :=
  if metadata.id != id then (s, .failed (.invalidInput "session identity changed"))
  else
    let stamped :=
      { metadata with
        provenance := { metadata.provenance with
          attentionUpdatedAt :=
            if scope.attention then some io.now else metadata.provenance.attentionUpdatedAt
          workMetadataUpdatedAt :=
            if scope.work then some io.now else metadata.provenance.workMetadataUpdatedAt } }
    if io.stageFails then (s, .failed .io)
    else
      match beforeReplace stamped with
      | .error e => (s, .failed e)
      | .ok _ =>
        if io.renameFails then (s, .failed .io)
        else
          let replaced := s.replace id { metadata := stamped, revision := next }
          if scope.attention then
            let (accepted, token) := replaced.acceptSessionWrite id
            (accepted, .committed true token)
          else (replaced, .committed false none)

/-- `try_write_session_owned`: a whole record, which keeps only the binding and the
revision of the record it replaces. -/
def tryWriteSessionOwned (io : Io) (metadata : SessionMetadata) (s : Store) : Store × Answer :=
  if io.dirFails then (s, .failed .io)
  else
    match s.tryReadRevisionedSession io metadata.id with
    | .error e => (s, .failed e)
    | .ok current =>
      let replacement :=
        match current with
        | some record => { metadata with worktreeBinding := record.metadata.worktreeBinding }
        | none => metadata
      match nextRevision ((current.map (·.revision)).getD 0) with
      | .error e => (s, .failed e)
      | .ok next =>
        if io.stageFails || io.renameFails then (s, .failed .io)
        else
          let (accepted, token) :=
            (s.replace metadata.id { metadata := replacement, revision := next }).acceptSessionWrite
              metadata.id
          (accepted, .committed true token)

def updateSessionLocked (io : Io) (id : String) (expectedRevision : Option Nat)
    (scope : WriteScope) (mutate : Mutate Unit) (s : Store) : Store × Answer :=
  match s.latest io id with
  | .error e => (s, .failed e)
  | .ok record =>
    if expectedRevision.any (fun expected => record.revision != expected) then
      (s, .failed .conflict)
    else
      -- exhaustion is checked before a mutation with no chance of commit
      match nextRevision record.revision with
      | .error e => (s, .failed e)
      | .ok next =>
        match mutate record.metadata with
        | .error e => (s, .failed e)
        | .ok (metadata, _) => s.commitSessionRecord io id metadata scope next (fun _ => .ok ())

/-- `mutate_session_decided`; `mutate_session_optional` and its `before_replace` variant
decide between one scope and none. -/
def mutateSessionDecided (io : Io) (id : String) (mutate : Mutate (Option WriteScope))
    (beforeReplace : SessionMetadata → Except SessionError Unit) (s : Store) : Store × Answer :=
  match s.latest io id with
  | .error e => (s, .failed e)
  | .ok record =>
    match mutate record.metadata with
    | .error e => (s, .failed e)
    | .ok (_, none) => (s, .declined)
    | .ok (metadata, some scope) =>
      match nextRevision record.revision with
      | .error e => (s, .failed e)
      | .ok next => s.commitSessionRecord io id metadata scope next beforeReplace

def readOwnedAttention (io : Io) (id : String) (s : Store) : Store × Answer :=
  match s.tryReadRevisionedSession io id with
  | .error e => (s, .failed e)
  | .ok none => (s, .declined)
  | .ok (some _) => (s, .snapshot (s.owners[id]?.bind (·.snapshot id)))

/-- The time of an attention write. -/
def stampAttention (now : String) (metadata : SessionMetadata) : SessionMetadata :=
  { metadata with provenance := { metadata.provenance with attentionUpdatedAt := some now } }

/-- `mutate_owned_attention_inner`, with the token of a conditional write. -/
def mutateOwnedAttention (io : Io) (id : String) (expected : Option SessionWriteToken)
    (mutate : Mutate Bool) (s : Store) : Store × Answer :=
  if expected.any (fun token => !s.owned id token) then (s, .declined)
  else
    match s.latest io id with
    | .error e => (s, .failed e)
    | .ok record =>
      match mutate record.metadata with
      | .error e => (s, .failed e)
      | .ok (_, false) => (s, .declined)
      | .ok (metadata, true) =>
        if metadata.id != id then (s, .failed (.invalidInput "session identity changed"))
        else
          match nextRevision record.revision with
          | .error e => (s, .failed e)
          | .ok next =>
            if io.stageFails || io.renameFails then (s, .failed .io)
            else
              let (accepted, token) :=
                (s.replace id
                  { metadata := stampAttention io.now metadata
                    revision := next }).acceptSessionWrite id
              (accepted, .committed true token)

/-- The persisted checks of `try_write_session_if_owned_when`: the caller's provenance,
where it has one, is still the record's, and a native clear needs a live record. -/
def unrelated (metadata record : SessionMetadata) : Bool :=
  metadata.provenance.attentionSource.any
      (fun source => record.provenance.attentionSource != some source)
    || metadata.provenance.attentionOrigin.any
      (fun origin => record.provenance.attentionOrigin != some origin)
    || metadata.provenance.attentionConfidence.any
      (fun confidence => !F64.optionEq record.provenance.attentionConfidence (some confidence))
    || (metadata.attentionOrigin == "native_codex" && record.lifecycle != "alive")

/-- The record with the caller's attention. -/
def withAttention (metadata record : SessionMetadata) (now : String) : SessionMetadata :=
  stampAttention now { record with
    observedStatus := metadata.observedStatus
    attention := metadata.attention
    needsUserInput := metadata.needsUserInput
    detectedQuestion := metadata.detectedQuestion
    suggestedOptions := metadata.suggestedOptions
    lastActivity := metadata.lastActivity }

/-- `try_write_session_if_owned_when`. -/
def tryWriteSessionIfOwnedWhen (io : Io) (metadata : SessionMetadata) (token : SessionWriteToken)
    (ready : Bool) (s : Store) : Store × Answer :=
  if !s.owned metadata.id token then (s, .declined)
  else
    match s.tryReadRevisionedSession io metadata.id with
    | .error e => (s, .failed e)
    | .ok none => (s, .declined)
    | .ok (some record) =>
      if unrelated metadata record.metadata then (s, .declined)
      else
        match nextRevision record.revision with
        | .error e => (s, .failed e)
        | .ok next =>
          if io.stageFails then (s, .failed .io)
          else if !ready then (s, if io.removeStageFails then .failed .io else .declined)
          else if io.renameFails then (s, .failed .io)
          else
            let (accepted, token) :=
              (s.replace metadata.id
                { metadata := withAttention metadata record.metadata io.now
                  revision := next }).acceptSessionWrite metadata.id
            (accepted, .committed true token)

/-- `delete_session`: the owner moves on before the files go. -/
def deleteSession (io : Io) (id : String) (s : Store) : Store × Answer :=
  let revoked := { s with owners := s.owners.modify id AttentionOwner.advance }
  if io.removeFails then (revoked, .failed .io)
  else
    let removed := { revoked with files := revoked.files.erase id }
    if io.removeCorruptFails then (removed, .failed .io)
    else ({ removed with owners := removed.owners.erase id }, .deleted)

end Store

/-- The operations of the lane. -/
inductive Op where
  | write (metadata : SessionMetadata)
  | update (id : String) (expectedRevision : Option Nat) (scope : WriteScope) (mutate : Mutate Unit)
  | decide (id : String) (mutate : Mutate (Option WriteScope))
      (beforeReplace : SessionMetadata → Except SessionError Unit)
  | read (id : String)
  | mutateOwned (id : String) (expected : Option SessionWriteToken) (mutate : Mutate Bool)
  | writeIfOwned (metadata : SessionMetadata) (token : SessionWriteToken) (ready : Bool)
  | delete (id : String)

namespace Op

def session : Op → String
  | .write metadata => metadata.id
  | .update id .. => id
  | .decide id .. => id
  | .read id => id
  | .mutateOwned id .. => id
  | .writeIfOwned metadata .. => metadata.id
  | .delete id => id

def isDelete : Op → Bool
  | .delete _ => true
  | _ => false

def condition : Op → Option SessionWriteToken
  | .mutateOwned _ expected _ => expected
  | .writeIfOwned _ token _ => some token
  | _ => none

def run (io : Io) : Op → Store → Store × Answer
  | .write metadata => Store.tryWriteSessionOwned io metadata
  | .update id expectedRevision scope mutate =>
    Store.updateSessionLocked io id expectedRevision scope mutate
  | .decide id mutate beforeReplace => Store.mutateSessionDecided io id mutate beforeReplace
  | .read id => Store.readOwnedAttention io id
  | .mutateOwned id expected mutate => Store.mutateOwnedAttention io id expected mutate
  | .writeIfOwned metadata token ready => Store.tryWriteSessionIfOwnedWhen io metadata token ready
  | .delete id => Store.deleteSession io id

end Op

/-- One operation of the lane, what it met and what it answered. -/
structure Turn where
  io : Io
  op : Op
  answer : Answer

def Step (s : Store) (turn : Turn) (t : Store) : Prop := turn.op.run turn.io s = (t, turn.answer)

end Orkworksd.Metadata
