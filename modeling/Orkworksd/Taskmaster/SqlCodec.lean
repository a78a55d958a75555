import Orkworksd.Harness.StrictJson
import Orkworksd.Taskmaster.Transaction

/- The manifest of a deletion that the session database has selected
   (`taskmaster/store/cleanup/removal/journal/sql_codec.rs`).

   What is proved:
     1. `decode_encode`: a manifest that was encoded is decoded under the same identity.
     2. `decode_source`: what is decoded is a record of the four members of a manifest, each
        once, with entries of the eight members of an entry, each once, and no other; it
        carries the identity it is decoded under and entries that `validate` accepts.
     3. `decode_identity`: no bytes are decoded under two identities.

   The digest of the journal's name is a parameter. An identity is read from the database and
   compared as a whole: nothing of it is read from the bytes. -/
namespace Orkworksd.Taskmaster.SqlCodec
open Lib Harness List

variable {entries : List RollupTransactionEntry}

/-- `session_store::SqlDeletionIdentity`. -/
structure SqlDeletionIdentity where
  databaseEpoch : String
  workspaceSha256 : String
  sessionId : String
  createdAt : String
  deriving DecidableEq, Repr

namespace SqlDeletionIdentity

/-- `u32::to_be_bytes` of a length. -/
def lengthBytes (length : Nat) : Bytes :=
  [UInt8.ofNat (length / 2 ^ 24), UInt8.ofNat (length / 2 ^ 16), UInt8.ofNat (length / 2 ^ 8),
    UInt8.ofNat length]

/-- What the name of the journal is the digest of. -/
def preimage (identity : SqlDeletionIdentity) : Bytes :=
  utf8 "orkworks/sql-recommendation-delete/v1\x00" ++
    [identity.databaseEpoch, identity.workspaceSha256, identity.sessionId,
      identity.createdAt].flatMap (fun field => lengthBytes field.utf8ByteSize ++ utf8 field)

def journalName (digests : Digests) (identity : SqlDeletionIdentity) : String :=
  "sql-delete-v1-" ++ digests.sha256 identity.preimage

def members (identity : SqlDeletionIdentity) : Members :=
  [("databaseEpoch", .string identity.databaseEpoch),
    ("workspaceSha256", .string identity.workspaceSha256),
    ("sessionId", .string identity.sessionId), ("createdAt", .string identity.createdAt)]

/-- `serde_json::to_value`. -/
def value (identity : SqlDeletionIdentity) : Json := .object identity.members

end SqlDeletionIdentity

def manifestBytes : Nat := 1024 * 1024
def entryLimit : Nat := 1024

def invalidManifest : StoreError := .recovery "invalid SQL-bound deletion manifest"

/-! ## Validation -/

/-- Sixty-four lower-case hexadecimal digits. -/
def validHash (hash : String) : Bool :=
  hash.utf8ByteSize == 64 &&
    hash.toList.all (fun c => c.isDigit || decide ('a' ≤ c ∧ c ≤ 'f'))

/-- The condition of the loop of `validate`. -/
def removes (entry : RollupTransactionEntry) : Bool :=
  entry.oldExists && !entry.newExists && entry.staged.isNone && entry.newSha256.isNone &&
    entry.oldSha256.any validHash

def validate (entries : List RollupTransactionEntry) : Except StoreError Unit := do
  if entryLimit < entries.length then .error invalidManifest
  else
    validateManifestEntries [] entries
    if entries.all removes then .ok () else .error invalidManifest

/-! ## Encoding -/

def entryMembers (entry : RollupTransactionEntry) : Members :=
  [("id", .string entry.id), ("target", .string entry.target),
    ("staged", .ofOption .string entry.staged), ("backup", .ofOption .string entry.backup),
    ("oldSha256", .ofOption .string entry.oldSha256), ("oldExists", .bool entry.oldExists),
    ("newSha256", .ofOption .string entry.newSha256), ("newExists", .bool entry.newExists)]

def manifestMembers (identity : SqlDeletionIdentity) (entries : List RollupTransactionEntry)
    (committed : Bool) : Members :=
  [("version", .ofNat 3), ("committed", .bool committed), ("sqlDeletion", identity.value),
    ("entries", .array (entries.map (fun entry => .object (entryMembers entry))))]

def manifest (identity : SqlDeletionIdentity) (entries : List RollupTransactionEntry)
    (committed : Bool) : Json := .object (manifestMembers identity entries committed)

def encode (identity : SqlDeletionIdentity) (entries : List RollupTransactionEntry)
    (committed : Bool) : Except StoreError Bytes := do
  validate entries
  let bytes := (manifest identity entries committed).prettyBytes
  if manifestBytes < bytes.length then .error invalidManifest else .ok bytes

/-! ## Decoding -/

def entryNames : List String :=
  ["id", "target", "staged", "backup", "oldSha256", "oldExists", "newSha256", "newExists"]

def manifestNames : List String := ["version", "committed", "sqlDeletion", "entries"]

structure WireManifest where
  version : Nat
  committed : Bool
  sqlDeletion : Json
  entries : List RollupTransactionEntry

/-- `WireEntry` and its conversion. A member of an optional type has to be there:
`Option::deserialize` has no default. -/
def readEntry (v : Json) : Option RollupTransactionEntry := do
  let m ← fields entryNames v
  return {
    id := ← Json.field m "id" Json.text
    target := ← Json.field m "target" Json.text
    staged := ← Json.field m "staged" (Json.nullable Json.text)
    backup := ← Json.field m "backup" (Json.nullable Json.text)
    oldSha256 := ← Json.field m "oldSha256" (Json.nullable Json.text)
    oldExists := ← Json.field m "oldExists" flag
    newSha256 := ← Json.field m "newSha256" (Json.nullable Json.text)
    newExists := ← Json.field m "newExists" flag }

def readManifest (v : Json) : Option WireManifest := do
  let m ← fields manifestNames v
  return {
    version := ← Json.field m "version" (Json.natural (2 ^ 32))
    committed := ← Json.field m "committed" flag
    sqlDeletion := ← Json.field m "sqlDeletion" some
    entries := ← Json.field m "entries" (Json.list readEntry) }

structure DecodedRemoval where
  committed : Bool
  entries : List RollupTransactionEntry
  deriving DecidableEq, Repr

def decode (digests : Digests) (bytes : Bytes) (expected : SqlDeletionIdentity)
    (basename : String) : Except StoreError DecodedRemoval := do
  if basename ≠ expected.journalName digests then .error invalidManifest
  else
    match parseStrictJson readManifest bytes manifestBytes with
    | none => .error invalidManifest
    | some wire =>
      if wire.version ≠ 3 ∨ wire.sqlDeletion.equal expected.value = false then
        .error invalidManifest
      else
        validate wire.entries
        return ⟨wire.committed, wire.entries⟩

/-! ## What was encoded is decoded -/

variable (o : Option String)

@[simp] theorem counting_text : (Json.ofOption Json.string o).Counting := by
  cases o <;> trivial

@[simp] theorem distinct_text : (Json.ofOption Json.string o).Distinct := by
  cases o <;> trivial

@[simp] theorem depth_text : depth (Json.ofOption Json.string o) = 0 := by
  cases o <;> rfl

@[simp] theorem nullable_text : Json.nullable Json.text (Json.ofOption Json.string o) = some o := by
  cases o <;> rfl

variable (entry : RollupTransactionEntry)

theorem entry_names : Json.Names entryNames (entryMembers entry) where
  keys := rfl
  distinct := by decide

theorem readEntry_object : readEntry (.object (entryMembers entry)) = some entry := by
  have h := entry_names entry
  rw [readEntry, fields_names h]
  simp only [Option.bind_eq_bind, Option.bind_some, Json.field_at h 0 rfl, Json.field_at h 1 rfl,
    Json.field_at h 2 rfl, Json.field_at h 3 rfl, Json.field_at h 4 rfl, Json.field_at h 5 rfl,
    Json.field_at h 6 rfl, Json.field_at h 7 rfl, nullable_text, Json.text, flag]
  rfl

section manifest
variable (identity : SqlDeletionIdentity) (entries : List RollupTransactionEntry) (committed : Bool)

theorem manifest_names : Json.Names manifestNames (manifestMembers identity entries committed) where
  keys := rfl
  distinct := by decide

theorem readManifest_manifest : readManifest (manifest identity entries committed) =
    some ⟨3, committed, identity.value, entries⟩ := by
  have h := manifest_names identity entries committed
  have hentries : Json.list readEntry (.array (entries.map (fun entry =>
      .object (entryMembers entry)))) = some entries := Json.list_map readEntry_object entries
  rw [readManifest, manifest, fields_names h]
  simp only [Option.bind_eq_bind, Option.bind_some, Json.field_at h 0 rfl, Json.field_at h 1 rfl,
    Json.field_at h 2 rfl, Json.field_at h 3 rfl, hentries, flag,
    Json.natural_ofNat (show 3 < 2 ^ 32 by decide)]
  rfl

theorem manifest_counting : (manifest identity entries committed).Counting := by
  refine ⟨⟨3, rfl⟩, trivial, ⟨trivial, trivial, trivial, trivial, trivial⟩, ?_, trivial⟩
  show Json.CountingItems (entries.map _)
  induction entries with
  | nil => trivial
  | cons entry entries ih =>
    exact ⟨⟨trivial, trivial, counting_text _, counting_text _, counting_text _, trivial,
      counting_text _, trivial, trivial⟩, ih⟩

theorem identity_distinct : identity.value.Distinct := by
  refine ⟨?_, trivial, trivial, trivial, trivial, trivial⟩
  show ["databaseEpoch", "workspaceSha256", "sessionId", "createdAt"].Nodup
  decide

theorem manifest_distinct : (manifest identity entries committed).Distinct := by
  refine ⟨?_, trivial, trivial, identity_distinct identity, ?_, trivial⟩
  · show manifestNames.Nodup
    decide
  · show Json.DistinctItems (entries.map _)
    induction entries with
    | nil => trivial
    | cons entry entries ih =>
      have hnames : entryNames.Nodup := by decide
      exact ⟨⟨hnames, trivial, trivial, distinct_text _, distinct_text _, distinct_text _, trivial,
        distinct_text _, trivial, trivial⟩, ih⟩

theorem manifest_depth : depth (manifest identity entries committed) < recursionLimit := by
  have hentries : depthItems (entries.map (fun entry => .object (entryMembers entry))) ≤ 1 := by
    induction entries with
    | nil => exact Nat.zero_le _
    | cons entry entries ih =>
      have hentry : depth (.object (entryMembers entry)) = 1 := by
        simp [entryMembers, depth, depthMembers]
      rw [map_cons, depthItems, hentry]
      exact Nat.max_le.mpr ⟨Nat.le_refl _, ih⟩
  have hmanifest : depth (manifest identity entries committed) =
      max (depth identity.value) (depthItems (entries.map (fun entry =>
        .object (entryMembers entry))) + 1) + 1 := by
    simp [manifest, manifestMembers, depth, depthMembers, Json.ofNat]
  have hidentity : depth identity.value = 1 := rfl
  rw [hmanifest, hidentity, recursionLimit]
  omega

end manifest

variable {bytes : Bytes}

variable {identity : SqlDeletionIdentity}

theorem encode_ok {committed : Bool} (h : encode identity entries committed = .ok bytes) :
    validate entries = .ok () ∧ bytes = (manifest identity entries committed).prettyBytes ∧
      bytes.length ≤ manifestBytes := by
  obtain ⟨hvalid, h⟩ := seq_eq_ok.mp h
  dsimp only at h
  split at h
  · cases h
  · next hbound =>
    cases h
    exact ⟨hvalid, rfl, Nat.le_of_not_lt hbound⟩

variable {digests : Digests}

theorem decode_encode {committed : Bool} (h : encode identity entries committed = .ok bytes) :
    decode digests bytes identity (identity.journalName digests) = .ok ⟨committed, entries⟩ := by
  obtain ⟨hvalid, rfl, hbound⟩ := encode_ok h
  have hparse := @parseStrictJson_pretty _ _ readManifest _ hbound
    (manifest_counting identity entries committed) (manifest_depth identity entries committed)
    (manifest_distinct identity entries committed)
  rw [readManifest_manifest] at hparse
  have hequal : Json.equal identity.value identity.value = true := by
    rw [Json.equal, Json.same_iff]
  rw [decode, if_neg (fun hne => hne rfl), hparse]
  show (if (3 : Nat) ≠ 3 ∨ Json.equal identity.value identity.value = false then _ else _) = _
  rw [hequal, if_neg (by decide)]
  show (do validate entries; pure (⟨committed, entries⟩ : DecodedRemoval)) = _
  rw [hvalid]
  rfl

/-! ## What is decoded -/

/-- A record of an entry: its eight members, each once, with the values of the entry. -/
def EntryRecord (v : Json) (entry : RollupTransactionEntry) : Prop :=
  ∃ members, Carries entryNames v members ∧
    ∀ member ∈ entryMembers entry, OrderedMap.get members member.1 = some member.2

/-- The entry deletes a file that is there, of a known digest, and puts nothing in its
place. -/
structure Removes (entry : RollupTransactionEntry) : Prop where
  oldExists : entry.oldExists = true
  hash : ∃ hash, entry.oldSha256 = some hash ∧ hash.utf8ByteSize = 64 ∧
    ∀ c ∈ hash.toList, c.isDigit = true ∨ ('a' ≤ c ∧ c ≤ 'f')
  newExists : entry.newExists = false
  staged : entry.staged = none
  newSha256 : entry.newSha256 = none

/-- A record of a manifest under an identity: its four members, each once. -/
structure ManifestRecord (identity : SqlDeletionIdentity) (decoded : DecodedRemoval)
    (members : Members) : Prop where
  version : OrderedMap.get members "version" = some (.ofNat 3)
  committed : OrderedMap.get members "committed" = some (.bool decoded.committed)
  sqlDeletion : ∃ v, OrderedMap.get members "sqlDeletion" = some v ∧
    Json.Reordered v identity.value
  entries : ∃ items, OrderedMap.get members "entries" = some (.array items) ∧
    List.Forall₂ EntryRecord items decoded.entries

theorem removes_iff : removes entry = true ↔ Removes entry := by
  simp only [removes, validHash, Bool.and_eq_true, Bool.not_eq_true', Option.isNone_iff_eq_none,
    Option.any_eq_true, beq_iff_eq, all_eq_true, Bool.or_eq_true, decide_eq_true_eq]
  constructor
  · intro h
    obtain ⟨⟨⟨⟨hold, hnew⟩, hstaged⟩, hnone⟩, hash, hhash, hlength, hdigits⟩ := h
    exact ⟨hold, ⟨hash, hhash, hlength, hdigits⟩, hnew, hstaged, hnone⟩
  · intro h
    obtain ⟨hash, hhash, hlength, hdigits⟩ := h.hash
    exact ⟨⟨⟨⟨h.oldExists, h.newExists⟩, h.staged⟩, h.newSha256⟩, hash, hhash, hlength, hdigits⟩

theorem validate_ok (h : validate entries = .ok ()) :
    entries.length ≤ entryLimit ∧ validateManifestEntries [] entries = .ok () ∧
      ∀ entry ∈ entries, Removes entry := by
  rw [validate] at h
  split at h
  · cases h
  · next hlimit =>
    obtain ⟨hconsistent, h⟩ := seq_eq_ok.mp h
    split at h
    · next hall =>
      exact ⟨Nat.le_of_not_lt hlimit, hconsistent, fun entry hentry =>
        (removes_iff entry).mp (all_eq_true.mp hall entry hentry)⟩
    · cases h

theorem readEntry_source {v : Json} {entry : RollupTransactionEntry}
    (h : readEntry v = some entry) : EntryRecord v entry := by
  obtain ⟨members, hmembers, h⟩ := Option.bind_eq_some_iff.mp h
  obtain ⟨id, hid, h⟩ := Option.bind_eq_some_iff.mp h
  obtain ⟨target, htarget, h⟩ := Option.bind_eq_some_iff.mp h
  obtain ⟨staged, hstaged, h⟩ := Option.bind_eq_some_iff.mp h
  obtain ⟨backup, hbackup, h⟩ := Option.bind_eq_some_iff.mp h
  obtain ⟨oldSha256, holdSha256, h⟩ := Option.bind_eq_some_iff.mp h
  obtain ⟨oldExists, holdExists, h⟩ := Option.bind_eq_some_iff.mp h
  obtain ⟨newSha256, hnewSha256, h⟩ := Option.bind_eq_some_iff.mp h
  obtain ⟨newExists, hnewExists, h⟩ := Option.bind_eq_some_iff.mp h
  cases h
  have htext : ∀ {key : String} {text : String}, Json.field members key Json.text = some text →
      OrderedMap.get members key = some (.string text) := by
    intro key text hfield
    obtain ⟨value, hget, hread⟩ := field_eq_some hfield
    rw [hget, text_eq_some hread]
  have hnullable : ∀ {key : String} {o : Option String},
      Json.field members key (Json.nullable Json.text) = some o →
        OrderedMap.get members key = some (.ofOption .string o) := by
    intro key o hfield
    obtain ⟨value, hget, hread⟩ := field_eq_some hfield
    rw [hget, nullable_text_eq_some hread]
  have hflag : ∀ {key : String} {b : Bool}, Json.field members key flag = some b →
      OrderedMap.get members key = some (.bool b) := by
    intro key b hfield
    obtain ⟨value, hget, hread⟩ := field_eq_some hfield
    rw [hget, flag_eq_some hread]
  have hread : ∀ member ∈ entryMembers ⟨id, target, staged, backup, oldSha256, oldExists,
      newSha256, newExists⟩, OrderedMap.get members member.1 = some member.2 := by
    simp only [entryMembers, forall_mem_cons]
    exact ⟨htext hid, htext htarget, hnullable hstaged, hnullable hbackup, hnullable holdSha256,
      hflag holdExists, hnullable hnewSha256, hflag hnewExists, fun _ hmem => absurd hmem not_mem_nil⟩
  refine ⟨members, carries_of_fields hmembers (by decide) fun name hname => ?_, hread⟩
  obtain ⟨member, hmember, rfl⟩ := mem_map.mp
    (show name ∈ (entryMembers ⟨id, target, staged, backup, oldSha256, oldExists, newSha256,
      newExists⟩).map Prod.fst from hname)
  rw [hread member hmember]
  rfl

theorem readManifest_source {v : Json} {wire : WireManifest} (h : readManifest v = some wire) :
    ∃ members items, Carries manifestNames v members ∧
      OrderedMap.get members "version" = some (.ofNat wire.version) ∧
      OrderedMap.get members "committed" = some (.bool wire.committed) ∧
      OrderedMap.get members "sqlDeletion" = some wire.sqlDeletion ∧
      OrderedMap.get members "entries" = some (.array items) ∧
      List.Forall₂ EntryRecord items wire.entries := by
  obtain ⟨members, hmembers, h⟩ := Option.bind_eq_some_iff.mp h
  obtain ⟨version, hversion, h⟩ := Option.bind_eq_some_iff.mp h
  obtain ⟨committed, hcommitted, h⟩ := Option.bind_eq_some_iff.mp h
  obtain ⟨sqlDeletion, hsqlDeletion, h⟩ := Option.bind_eq_some_iff.mp h
  obtain ⟨entries, hentries, h⟩ := Option.bind_eq_some_iff.mp h
  cases h
  obtain ⟨v₁, hget₁, hread₁⟩ := field_eq_some hversion
  obtain ⟨v₂, hget₂, hread₂⟩ := field_eq_some hcommitted
  obtain ⟨v₃, hget₃, hread₃⟩ := field_eq_some hsqlDeletion
  obtain ⟨v₄, hget₄, hread₄⟩ := field_eq_some hentries
  cases hread₃
  rw [natural_eq_some hread₁] at hget₁
  rw [flag_eq_some hread₂] at hget₂
  obtain ⟨items, rfl, hitems⟩ := list_eq_some hread₄
  refine ⟨members, items, carries_of_fields hmembers (by decide) ?_, hget₁, hget₂, hget₃, hget₄,
    hitems.imp fun _ _ => readEntry_source⟩
  simp only [manifestNames, forall_mem_cons, hget₁, hget₂, hget₃, hget₄, Option.isSome_some,
    true_and]
  exact fun _ hmem => absurd hmem not_mem_nil

variable {decoded : DecodedRemoval} {basename : String} {expected : SqlDeletionIdentity}

theorem decode_ok (h : decode digests bytes expected basename = .ok decoded) :
    basename = expected.journalName digests ∧ ∃ wire document, Json.read bytes = some document ∧
      document.Distinct ∧ readManifest document = some wire ∧ wire.version = 3 ∧
      wire.sqlDeletion.equal expected.value = true ∧ validate wire.entries = .ok () ∧
      decoded = ⟨wire.committed, wire.entries⟩ := by
  rw [decode] at h
  split at h
  · cases h
  · next hname =>
    split at h
    · cases h
    · next wire hparse =>
      obtain ⟨document, hread, hdistinct, hwire⟩ := parseStrictJson_source hparse
      split at h
      · cases h
      · next hchecks =>
        obtain ⟨hversion, hidentity⟩ := not_or.mp hchecks
        obtain ⟨hvalid, h⟩ := seq_eq_ok.mp h
        cases h
        exact ⟨Decidable.not_not.mp hname, wire, document, hread, hdistinct, hwire,
          Decidable.not_not.mp hversion, Bool.eq_true_of_not_eq_false hidentity, hvalid, rfl⟩

theorem decode_source (h : decode digests bytes expected basename = .ok decoded) :
    basename = expected.journalName digests ∧ ∃ document members, Json.read bytes = some document ∧
      document.Distinct ∧ Carries manifestNames document members ∧
      ManifestRecord expected decoded members := by
  obtain ⟨hname, wire, document, hread, hdistinct, hwire, hversion, hidentity, -, rfl⟩ :=
    decode_ok h
  obtain ⟨members, items, hcarries, hgetVersion, hgetCommitted, hgetDeletion, hgetEntries,
    hitems⟩ := readManifest_source hwire
  have hdeletion : wire.sqlDeletion.Distinct :=
    hcarries.distinct (by decide) hdistinct hgetDeletion
  refine ⟨hname, document, members, hread, hdistinct, hcarries, ?_⟩
  exact {
    version := by rw [hgetVersion, hversion]
    committed := hgetCommitted
    sqlDeletion := ⟨wire.sqlDeletion, hgetDeletion, (Json.equal_iff hdeletion).mp hidentity⟩
    entries := ⟨items, hgetEntries, hitems⟩ }

variable {other : SqlDeletionIdentity}

theorem value_inj
    (h : Json.sorted identity.value = Json.sorted other.value) : identity = other := by
  have hnames (i : SqlDeletionIdentity) :
      Json.Names ["databaseEpoch", "workspaceSha256", "sessionId", "createdAt"] i.members :=
    ⟨rfl, by decide⟩
  have hnodup (i : SqlDeletionIdentity) : (OrderedMap.keys i.members).Nodup := by
    rw [(hnames i).keys]
    exact (hnames i).distinct
  have hmembers := Json.object.inj h
  -- a member is looked up in the sorted members as it is in those of the record
  have hfield : ∀ {key text text' : String},
      OrderedMap.get identity.members key = some (.string text) →
        OrderedMap.get other.members key = some (.string text') → text = text' := by
    intro key text text' hget hget'
    have hsorted := Json.get_sorted (hnodup identity) key
    rw [hmembers, Json.get_sorted (hnodup other) key, hget, hget'] at hsorted
    exact (Json.string.inj (Option.some.inj hsorted)).symm
  have hepoch := hfield (Json.get_at (hnames identity) 0 rfl) (Json.get_at (hnames other) 0 rfl)
  have hworkspace := hfield (Json.get_at (hnames identity) 1 rfl) (Json.get_at (hnames other) 1 rfl)
  have hsession := hfield (Json.get_at (hnames identity) 2 rfl) (Json.get_at (hnames other) 2 rfl)
  have hcreated := hfield (Json.get_at (hnames identity) 3 rfl) (Json.get_at (hnames other) 3 rfl)
  cases identity
  cases other
  simp only [SqlDeletionIdentity.mk.injEq]
  exact ⟨hepoch, hworkspace, hsession, hcreated⟩

theorem decode_identity {basename' : String} {decoded' : DecodedRemoval}
    (h : decode digests bytes expected basename = .ok decoded)
    (h' : decode digests bytes other basename' = .ok decoded') : expected = other := by
  obtain ⟨-, wire, document, hread, hdistinct, hwire, -, hidentity, -⟩ := decode_ok h
  obtain ⟨-, wire', document', hread', -, hwire', -, hidentity', -⟩ := decode_ok h'
  rw [hread] at hread'
  cases hread'
  rw [hwire] at hwire'
  cases hwire'
  rw [Json.equal, Json.same_iff] at hidentity hidentity'
  exact value_inj (hidentity.symm.trans hidentity')

/-- The codec round-trips, and what it accepts is a manifest of the one deletion. -/
theorem codec_exact (digests : Digests) (identity : SqlDeletionIdentity) :
    (∀ entries committed bytes, encode identity entries committed = .ok bytes →
      decode digests bytes identity (identity.journalName digests) = .ok ⟨committed, entries⟩) ∧
    (∀ bytes basename decoded, decode digests bytes identity basename = .ok decoded →
      basename = identity.journalName digests ∧
      (∃ document members, Json.read bytes = some document ∧ document.Distinct ∧
        Carries manifestNames document members ∧ ManifestRecord identity decoded members) ∧
      decoded.entries.length ≤ entryLimit ∧
      validateManifestEntries [] decoded.entries = .ok () ∧
      (∀ entry ∈ decoded.entries, Removes entry) ∧
      ∀ other basename' decoded', decode digests bytes other basename' = .ok decoded' →
        other = identity) := by
  refine ⟨fun entries committed bytes h => decode_encode h, fun bytes basename decoded h => ?_⟩
  obtain ⟨hname, hsource⟩ := decode_source h
  obtain ⟨-, wire, _, -, -, -, -, -, hvalid, rfl⟩ := decode_ok h
  obtain ⟨hlimit, hconsistent, hremoves⟩ := validate_ok hvalid
  exact ⟨hname, hsource, hlimit, hconsistent, hremoves,
    fun other basename' decoded' h' => decode_identity h' h⟩

/-! One recommendation of a deleted session. -/

def sampleIdentity : SqlDeletionIdentity where
  databaseEpoch := "12345678-1234-4234-8234-123456789abc"
  workspaceSha256 := "c0ffee"
  sessionId := "pending"
  createdAt := "2026-01-01T00:00:00Z"

def sampleEntry : RollupTransactionEntry where
  id := "rec-1"
  target := "rec-1.json"
  staged := none
  backup := some "backups/rec-1.json"
  oldSha256 := some "aaaaaaaaaaaaaaaaaaaaaaaaaaaaaaaaaaaaaaaaaaaaaaaaaaaaaaaaaaaaaaaa"
  oldExists := true
  newSha256 := none
  newExists := false

def sampleDigests : Digests where
  sha256 _ := "0f"
  stableId _ _ := ""
  evidenceJson _ := []
  actionJson _ := []
  isUuid _ := true

theorem codec_exact_sample : ∃ bytes, encode sampleIdentity [sampleEntry] true = .ok bytes ∧
    decode sampleDigests bytes sampleIdentity (sampleIdentity.journalName sampleDigests) =
      .ok ⟨true, [sampleEntry]⟩ ∧
    ∀ other basename decoded, decode sampleDigests bytes other basename = .ok decoded →
      other = sampleIdentity := by
  have hencode : encode sampleIdentity [sampleEntry] true =
      .ok (manifest sampleIdentity [sampleEntry] true).prettyBytes := by
    decide +kernel
  have hdecode := (codec_exact sampleDigests sampleIdentity).1 _ _ _ hencode
  obtain ⟨-, -, -, -, -, hother⟩ :=
    (codec_exact sampleDigests sampleIdentity).2 _ _ _ hdecode
  exact ⟨_, hencode, hdecode, hother⟩

end Orkworksd.Taskmaster.SqlCodec
