import Orkworksd.Taskmaster.Store

/- The deletion journal of the recommendation store
   (`taskmaster/store/cleanup.rs`, `cleanup/removal.rs` and
   `cleanup/removal/journal/protocol.rs` with its `files.rs`): how a removal is
   prepared, published and recovered.

   A `Disk` is the recommendations directory: its record files and, when it exists,
   the directory `.rollup-transactions`. A `Transaction` is one directory in it, with
   a field for each entry the protocol knows and the names of all others. As in
   `Transaction.lean` a program lists the disks a crash may leave behind: creating or
   removing an entry and renaming one are single steps, and a file being written may
   hold any prefix of its bytes until it is synced. A missing recommendations
   directory reads as an empty one and a directory is read in name order. The journal
   runs under the store's operation lock, so nobody else changes the directory; the
   inode comparisons that detect such changes are left out, the comparisons of
   contents are kept. -/
namespace Orkworksd.Taskmaster.Deletion
open Lib

structure Transaction where
  manifest : Option Bytes
  temporary : Option Bytes
  backups : Option Files
  staged : Option Files
  others : List String

structure Disk where
  files : Files
  journal : Option (TextMap Transaction)

/-- What the protocol takes from outside the repository. -/
structure Env where
  digests : Digests
  /-- `serde_json::to_vec_pretty` of a manifest. -/
  encodeManifest : RollupTransactionManifest → Bytes
  /-- `parse_strict_json` of a manifest, the size apart. -/
  parseManifest : Bytes → Option RollupTransactionManifest
  /-- `parse_strict_json` of a record, the size apart. -/
  parseRecord : Bytes → Option Recommendation
  /-- `Uuid::parse_str` reads the text, and prints it the same way. -/
  canonicalUuid : String → Bool

abbrev JournalM := Prog Disk StoreError

def entryLimit : Nat := 1024
def byteLimit : Nat := 1024 * 1024
def totalLimit : Nat := 32 * byteLimit

def invalid (message : String) : StoreError := .io message

/-- `.map_err(|e| invalid(&e.to_string()))`. -/
def asInvalid {α : Type} (result : Except StoreError α) : Except StoreError α :=
  result.mapError (fun error => invalid error.display)

/-- `if condition { return Err(invalid(message)) }`. -/
def refuseInvalid (condition : Bool) (message : String) : Except StoreError Unit :=
  if condition then .error (invalid message) else .ok ()

/-- The bound `unix::names` puts on the entries of a directory. -/
def boundNames (entries : Nat) : Except StoreError Unit :=
  refuseInvalid (decide (entryLimit + 1 < entries)) "recommendations exceed entry bound"

def parseStrictJson {α : Type} (parse : Bytes → Option α) (bytes : Bytes) (maxBytes : Nat) :
    Option α :=
  if maxBytes < bytes.length then none else parse bytes

/-! ## The inventory -/

/-- `CleanupInventory`: the records, and the contents of their files by id. -/
structure Inventory where
  records : List Recommendation
  leaves : TextMap Bytes

/-- The loop body of `unix::read_records`; `total` counts the bytes before it. -/
def readEntry (env : Env) (total : Nat) (name : String) (bytes : Bytes) :
    Except StoreError Recommendation :=
  if !".json".toList.isSuffixOf name.toList then
    .error (.recovery "recommendation preflight requires recovered canonical record entries")
  else if byteLimit < bytes.length then
    .error (invalid "recommendation exceeds record byte bound")
  else if totalLimit < total + bytes.length then
    .error (invalid "recommendations exceed aggregate byte bound")
  else match parseStrictJson env.parseRecord bytes byteLimit with
    | none => .error (invalid "invalid or ambiguous recommendation JSON")
    | some record => do
      validateRecommendation env.digests record
      refuseInvalid (name != recommendationFilename record.id)
        "recommendation filename does not match its identity"
      return record

def readEntries (env : Env) :
    Nat → List (String × Bytes) → Except StoreError (List (Recommendation × Bytes))
  | _, [] => .ok []
  | total, (name, bytes) :: rest => do
    let record ← readEntry env total name bytes
    let others ← readEntries env (total + bytes.length) rest
    return (record, bytes) :: others

/-- `unix::read_records`, which skips the journal. -/
def readRecords (env : Env) (files : Files) : Except StoreError Inventory := do
  refuseInvalid (decide (entryLimit < files.size)) "recommendations exceed entry bound"
  let stored ← readEntries env 0 files.toList
  return ⟨stored.map Prod.fst, .ofList (stored.map (fun leaf => (leaf.1.id, leaf.2)))⟩

/-- `unix::inspect`, an empty journal being allowed. -/
def inspect (env : Env) (d : Disk) : Except StoreError Inventory := do
  let inventory ← readRecords env d.files
  boundNames (d.journal.getD ∅).size
  if (d.journal.getD ∅).isEmpty then
    validateGraphRecords env.digests inventory.records
    return inventory
  else .error (.recovery "pending recommendation journal requires identity-bound recovery")

/-- The two inventories have the same leaves. -/
def sameLeaves (leaves old : TextMap Bytes) : Bool :=
  leaves.size == old.size && leaves.toList.all (fun leaf => old[leaf.1]? == some leaf.2)

/-! ## Preparing a removal -/

structure PreparedRemoval where
  inventory : Inventory
  entries : List RollupTransactionEntry
  uncommitted : Bytes
  committed : Bytes

def deletionEntry (env : Env) (id : String) (bytes : Bytes) : RollupTransactionEntry where
  id := id
  target := recommendationFilename id
  staged := none
  backup := some (transactionBackupPath id)
  oldSha256 := some (env.digests.sha256 bytes)
  oldExists := true
  newSha256 := none
  newExists := false

/-- The loop of `prepare_session_removal`. -/
def removalEntries (env : Env) (leaves : TextMap Bytes) (ids : Finset String) :
    List Recommendation → Except StoreError (List RollupTransactionEntry)
  | [] => .ok []
  | record :: records =>
    if record.id ∉ ids then removalEntries env leaves ids records
    else match leaves[record.id]? with
      | none => .error (.recovery "removal inventory lacks original leaf proof")
      | some bytes => do
        let entries ← removalEntries env leaves ids records
        return deletionEntry env record.id bytes :: entries

def boundedManifest (env : Env) (manifest : RollupTransactionManifest) :
    Except StoreError Bytes := do
  refuseInvalid (decide (byteLimit < (env.encodeManifest manifest).length))
    "removal exceeds manifest byte bound"
  return env.encodeManifest manifest

def removedIds (records : List Recommendation) (select : Recommendation → Bool) : Finset String :=
  deletionGraphIds records ((records.filter select).map (·.id)).toFinset

def prepareSelected (env : Env) (inventory : Inventory) (select : Recommendation → Bool) :
    Except StoreError PreparedRemoval := do
  let unsorted ← removalEntries env inventory.leaves (removedIds inventory.records select)
    inventory.records
  let entries := sortBy (fun a b => a.id ≤ b.id) unsorted
  validateManifestEntries [] entries
  let uncommitted ← boundedManifest env ⟨2, false, entries⟩
  let committed ← boundedManifest env ⟨2, true, entries⟩
  return ⟨inventory, entries, uncommitted, committed⟩

def referencesSession (sessionId : String) (record : Recommendation) : Bool :=
  (referencedSessions record).contains sessionId

def prepareSessionRemoval (env : Env) (inventory : Inventory) (sessionId : String) :
    Except StoreError PreparedRemoval :=
  prepareSelected env inventory (referencesSession sessionId)

def prepareRemoval (env : Env) (d : Disk) (sessionId : String) :
    Except StoreError PreparedRemoval := do
  let inventory ← inspect env d
  prepareSessionRemoval env inventory sessionId

def PreparedRemoval.manifestBytes (removal : PreparedRemoval) (committed : Bool) : Bytes :=
  if committed then removal.committed else removal.uncommitted

/-! ## File operations -/

def existsError : StoreError := .io "File exists (os error 17)"

def notEmptyError : StoreError := .io "Directory not empty (os error 39)"

/-- The bound `read` puts on a journal file. -/
def boundLeaf (bytes : Bytes) : Except StoreError Unit :=
  refuseInvalid (decide (byteLimit < bytes.length))
    "journal leaf is aliased, nonregular or oversized"

namespace Disk

def transaction (d : Disk) (name : String) : Option Transaction :=
  d.journal.bind (fun journal => journal[name]?)

def modify (d : Disk) (name : String) (f : Transaction → Transaction) : Disk :=
  { d with journal := d.journal.map (fun journal => journal.modify name f) }

end Disk

namespace Transaction

def new : Transaction := ⟨none, none, none, none, []⟩

def isEmpty (t : Transaction) : Bool :=
  t.manifest.isNone && t.temporary.isNone && t.backups.isNone && t.staged.isNone
    && t.others.isEmpty

def backup (t : Transaction) (target : String) : Option Bytes :=
  t.backups.bind (fun backups => backups[target]?)

def putBackup (t : Transaction) (target : String) (bytes : Bytes) : Transaction :=
  { t with backups := t.backups.map (fun backups => backups.insert target bytes) }

def dropBackup (t : Transaction) (target : String) : Transaction :=
  { t with backups := t.backups.map (fun backups => backups.erase target) }

end Transaction

/-- Look at a transaction directory. -/
def checkTransaction {α : Type} (name : String) (f : Transaction → Except StoreError α) :
    JournalM α :=
  Prog.check (fun d => match d.transaction name with
    | none => .error missingFile
    | some t => f t)

/-- One durable change of a transaction directory. -/
def stepTransaction (name : String) (f : Transaction → Transaction) : JournalM Unit :=
  Prog.step (fun d => d.modify name f)

/-- `mkdir` of the journal, where there is none. -/
def makeJournal : JournalM Unit :=
  Prog.step (fun d => { d with journal := some (d.journal.getD ∅) })

/-- `mkdir` of a transaction directory. -/
def makeTransaction (name : String) : JournalM Unit := do
  Prog.check (fun d => if (d.transaction name).isSome then .error existsError else .ok ())
  Prog.step (fun d => { d with
    journal := d.journal.map (fun journal => journal.insert name .new) })

def makeBackups (name : String) : JournalM Unit := do
  checkTransaction name (fun t => if t.backups.isSome then .error existsError else .ok ())
  stepTransaction name (fun t => { t with backups := some ∅ })

def makeStaged (name : String) : JournalM Unit := do
  checkTransaction name (fun t => if t.staged.isSome then .error existsError else .ok ())
  stepTransaction name (fun t => { t with staged := some ∅ })

/-- `write` of a file of a transaction directory that `put` places there: the file
must be new, and is read back. -/
def writeLeaf (name : String) (found : Transaction → Option Bytes)
    (put : Transaction → Bytes → Transaction) (bytes : Bytes) : JournalM Unit := do
  checkTransaction name (fun t => if (found t).isSome then .error existsError else .ok ())
  Prog.during
    (fun d => bytes.inits.map (fun written => d.modify name (fun t => put t written)))
    (fun d => d.modify name (fun t => put t bytes))
  Prog.check (fun _ => boundLeaf bytes)

def writeBackup (name target : String) (bytes : Bytes) : JournalM Unit :=
  writeLeaf name (·.backup target) (fun t written => t.putBackup target written) bytes

/-- `write` of the temporary manifest. -/
def writeTemporary (name : String) (bytes : Bytes) : JournalM Unit :=
  writeLeaf name (·.temporary) (fun t written => { t with temporary := some written }) bytes

/-- What `manifest` checks of the manifest it is about to replace. -/
def verifyPrevious : Option Bytes → Option Bytes → Except StoreError Unit
  | some _, none => .error missingFile
  | some previous, some found => refuseInvalid (found != previous) "journal leaf changed"
  | none, some _ => .error (invalid "manifest appeared")
  | none, none => .ok ()

/-- `manifest` up to the rename. -/
def stageManifest (name : String) (bytes : Bytes) (previous : Option Bytes) : JournalM Unit := do
  writeTemporary name bytes
  checkTransaction name (fun t => verifyPrevious previous t.manifest)

/-- The rename of `manifest`, which publishes it. -/
def renameManifest (name : String) : JournalM Unit :=
  stepTransaction name (fun t => { t with manifest := t.temporary, temporary := none })

/-! ## What recovery validates -/

/-- The transaction of a journal that has one; the name has to be canonical. -/
def pendingTransaction (env : Env) (journal : TextMap Transaction) :
    Except StoreError (Option (String × Transaction)) := do
  boundNames journal.size
  match journal.toList with
  | [] => return none
  | [(name, t)] =>
    match name.toList with
    | 't' :: 'x' :: '-' :: id =>
      refuseInvalid (!env.canonicalUuid (String.ofList id)) "noncanonical transaction identity"
      return some (name, t)
    | _ => .error (invalid "invalid transaction name")
  | _ => .error (invalid "multiple pending recommendation journals")

def boundOptional : Option Bytes → Except StoreError Unit
  | none => .ok ()
  | some bytes => boundLeaf bytes

/-- The entries of a transaction directory. -/
def checkNames (t : Transaction) : Except StoreError Unit := do
  boundNames (t.manifest.toList.length + t.temporary.toList.length + t.backups.toList.length
    + t.staged.toList.length + t.others.length)
  refuseInvalid (!t.others.isEmpty) "unknown journal entry"
  boundNames (t.staged.getD ∅).size
  refuseInvalid (!(t.staged.getD ∅).isEmpty) "deletion journal contains staged replacements"
  boundOptional t.manifest
  boundOptional t.temporary

def replaces (entry : RollupTransactionEntry) : Bool :=
  !entry.oldExists || entry.newExists || entry.staged.isSome || entry.newSha256.isSome

def readManifest (env : Env) :
    Option Bytes → Except StoreError (Option RollupTransactionManifest)
  | none => .ok none
  | some bytes =>
    match parseStrictJson env.parseManifest bytes byteLimit with
    | none => .error (invalid "invalid deletion manifest")
    | some manifest => do
      refuseInvalid (manifest.version != 2 || decide (entryLimit < manifest.entries.length)
        || manifest.entries.any replaces) "unsupported deletion manifest"
      asInvalid (validateManifestEntries [] manifest.entries)
      return some manifest

/-- The manifest's entries by target. -/
def selectedEntries (parsed : Option RollupTransactionManifest) : TextMap RollupTransactionEntry :=
  .ofList (((parsed.map (·.entries)).getD []).map (fun entry => (entry.target, entry)))

def parseBackup (env : Env) (bytes : Bytes) (id : String) : Except StoreError Recommendation :=
  match parseStrictJson env.parseRecord bytes byteLimit with
  | none => .error (invalid "invalid backup JSON")
  | some record => do
    asInvalid (validateRecommendation env.digests record)
    refuseInvalid (record.id != id) "backup identity mismatch"
    return record

/-- A backup as recovery keeps it: its contents, and the record once committed. -/
abbrev Backup := Bytes × Option Recommendation

def committedBackup (env : Env) (selected : TextMap RollupTransactionEntry) (filename : String)
    (bytes : Bytes) : Except StoreError (String × Backup) :=
  match selected[filename]? with
  | none => .error (invalid "unknown backup")
  | some entry => do
    refuseInvalid (entry.oldSha256 != some (env.digests.sha256 bytes)) "backup hash mismatch"
    let record ← parseBackup env bytes entry.id
    return (entry.id, bytes, some record)

/-- A backup of a draft, which may be torn. -/
def draftBackup (leaves : TextMap Bytes) (parsed : Option RollupTransactionManifest)
    (filename : String) (bytes : Bytes) : Except StoreError (String × Backup) :=
  match leaves.toList.find? (fun leaf => recommendationFilename leaf.1 == filename) with
  | none => .error (invalid "draft backup has no original")
  | some (id, original) => do
    refuseInvalid (parsed.isSome && !(selectedEntries parsed).contains filename)
      "unknown uncommitted backup"
    refuseInvalid (!bytes.isPrefixOf original) "draft backup differs from original"
    return (id, bytes, none)

def isCommitted (parsed : Option RollupTransactionManifest) : Bool := parsed.any (·.committed)

def readBackup (env : Env) (leaves : TextMap Bytes) (parsed : Option RollupTransactionManifest)
    (filename : String) (bytes : Bytes) : Except StoreError (String × Backup) :=
  if isCommitted parsed then committedBackup env (selectedEntries parsed) filename bytes
  else draftBackup leaves parsed filename bytes

/-- The loop over the backup files; `total` counts the bytes before it. -/
def readBackups (env : Env) (leaves : TextMap Bytes) (parsed : Option RollupTransactionManifest) :
    Nat → List (String × Bytes) → Except StoreError (List (String × Backup))
  | _, [] => .ok []
  | total, (filename, bytes) :: rest => do
    boundLeaf bytes
    refuseInvalid (decide (totalLimit < total + bytes.length)) "backup aggregate bound exceeded"
    let backup ← readBackup env leaves parsed filename bytes
    let others ← readBackups env leaves parsed (total + bytes.length) rest
    return backup :: others

def completedBackups (leaves : TextMap Bytes) (backups : TextMap Backup) : Bool :=
  backups.toList.all (fun backup => leaves[backup.1]? == some backup.2.1)

/-- The manifest a temporary file can be the beginning of. -/
def expectedManifest (env : Env) (leaves : TextMap Bytes)
    (parsed : Option RollupTransactionManifest) (backups : TextMap Backup) :
    Except StoreError RollupTransactionManifest :=
  match parsed with
  | some manifest => .ok { manifest with committed := true }
  | none => do
    -- before the first rename the complete backups determine the manifest
    refuseInvalid backups.isEmpty "temporary manifest has no completed backup"
    refuseInvalid (!completedBackups leaves backups)
      "temporary manifest precedes completed backups"
    return ⟨2, false, backups.toList.map (fun backup => deletionEntry env backup.1 backup.2.1)⟩

def checkTemporary (env : Env) (leaves : TextMap Bytes)
    (parsed : Option RollupTransactionManifest) (backups : TextMap Backup) :
    Option Bytes → Except StoreError Unit
  | none => .ok ()
  | some temporary => do
    refuseInvalid (isCommitted parsed) "committed journal has an unexpected temporary manifest"
    let next ← expectedManifest env leaves parsed backups
    let bytes ← asInvalid (boundedManifest env next)
    refuseInvalid (!temporary.isPrefixOf bytes) "temporary manifest differs from expected write"

/-- The entry's target, where it still exists, has the contents of the backup. -/
def targetUnchanged (env : Env) (leaves : TextMap Bytes) (entry : RollupTransactionEntry) : Bool :=
  (leaves[entry.id]?).all (fun bytes => entry.oldSha256 == some (env.digests.sha256 bytes))

/-- The records before the removal, put together from the files and the backups. -/
def reconstruct (env : Env) (leaves : TextMap Bytes) (backups : TextMap Backup) :
    TextMap Recommendation → List RollupTransactionEntry →
      Except StoreError (TextMap Recommendation)
  | old, [] => .ok old
  | old, entry :: entries =>
    match backups[entry.id]? with
    | none => .error (invalid "missing committed backup")
    | some (_, none) => .error (invalid "parsed committed backup")
    | some (_, some record) => do
      refuseInvalid (!targetUnchanged env leaves entry) "target changed since journal capture"
      reconstruct env leaves backups (old.insert entry.id record) entries

def recordSize (leaves : TextMap Bytes) (backups : TextMap Backup) (id : String) : Nat :=
  match leaves[id]? with
  | some bytes => bytes.length
  | none => ((backups[id]?).map (·.1.length)).getD 0

def checkReconstructed (env : Env) (inventory : Inventory) (backups : TextMap Backup)
    (entries : List RollupTransactionEntry) : Except StoreError Unit := do
  let old ← reconstruct env inventory.leaves backups
    (.ofList (inventory.records.map (fun record => (record.id, record)))) entries
  refuseInvalid (decide (entryLimit < old.size) || decide (totalLimit <
      (old.toList.map (fun record => recordSize inventory.leaves backups record.2.id)).sum))
    "reconstructed graph exceeds bounds"
  asInvalid (validateGraphRecords env.digests (old.toList.map Prod.snd))

/-- The checks of the records under a committed manifest. -/
def checkCommitted (env : Env) (inventory : Inventory) (backups : TextMap Backup)
    (entries : List RollupTransactionEntry) : Except StoreError Unit := do
  if entries.all (fun entry => !inventory.leaves.contains entry.id) then .ok ()
  else checkReconstructed env inventory backups entries
  asInvalid (validateGraphRecords env.digests (inventory.records.filter (fun record =>
    !entries.any (fun entry => entry.id == record.id))))

/-- The checks of the records otherwise. -/
def checkUncommitted (env : Env) (inventory : Inventory) (entries : List RollupTransactionEntry) :
    Except StoreError Unit := do
  asInvalid (validateGraphRecords env.digests inventory.records)
  refuseInvalid (entries.any (fun entry =>
      !(inventory.leaves[entry.id]?).any (fun bytes =>
        entry.oldSha256 == some (env.digests.sha256 bytes)))) "uncommitted target changed"

/-- A validated transaction, before the first effect. -/
structure Recovery where
  name : String
  transaction : Transaction
  committed : Bool
  leaves : TextMap Bytes
  entries : List RollupTransactionEntry
  backups : TextMap Backup

def validateTransaction (env : Env) (inventory : Inventory) (name : String) (t : Transaction) :
    Except StoreError Recovery := do
  checkNames t
  let parsed ← readManifest env t.manifest
  boundNames (t.backups.getD ∅).size
  let found ← readBackups env inventory.leaves parsed 0 (t.backups.getD ∅).toList
  let backups : TextMap Backup := .ofList found
  let entries := (selectedEntries parsed).toList.map Prod.snd
  checkTemporary env inventory.leaves parsed backups t.temporary
  if isCommitted parsed then checkCommitted env inventory backups entries
  else checkUncommitted env inventory entries
  return ⟨name, t, isCommitted parsed, inventory.leaves, entries, backups⟩

inductive Pending where
  | absent
  | empty
  | transaction (recovery : Recovery)

def validatePending (env : Env) (inventory : Inventory) (journal : TextMap Transaction) :
    Except StoreError Pending := do
  match ← pendingTransaction env journal with
  | none => do
    asInvalid (validateGraphRecords env.digests inventory.records)
    return .empty
  | some (name, t) => do
    let recovery ← validateTransaction env inventory name t
    return .transaction recovery

/-- The records, which are those of `expected` when there is one. -/
def readExpected (env : Env) (expected : Option (TextMap Bytes)) (files : Files) :
    Except StoreError Inventory := do
  let inventory ← asInvalid (readRecords env files)
  refuseInvalid (!expected.all (fun old => sameLeaves inventory.leaves old))
    "captured inventory changed during journal publication"
  return inventory

/-- Everything `recover_expected` validates before its first effect. -/
def validateJournal (env : Env) (expected : Option (TextMap Bytes)) (d : Disk) :
    Except StoreError Pending := do
  let inventory ← readExpected env expected d.files
  match d.journal with
  | none => do
    asInvalid (validateGraphRecords env.digests inventory.records)
    return .absent
  | some journal => validatePending env inventory journal

/-! ## The effects of recovery -/

/-- Remove the record file of an entry that still has one. -/
def removeTarget (leaves : TextMap Bytes) (entry : RollupTransactionEntry) : JournalM Unit :=
  match leaves[entry.id]? with
  | none => pure ()
  | some captured => do
    Prog.check (fun d => match d.files[entry.target]? with
      | none => .error missingFile
      | some bytes => refuseInvalid (bytes != captured) "target changed during recovery")
    Prog.step (fun d => { d with files := d.files.erase entry.target })

def checkGraph (env : Env) : JournalM Unit :=
  Prog.check (fun d => do
    let inventory ← asInvalid (readRecords env d.files)
    asInvalid (validateGraphRecords env.digests inventory.records))

def removeTemporary (recovery : Recovery) : JournalM Unit :=
  match recovery.transaction.temporary with
  | none => pure ()
  | some _ => stepTransaction recovery.name (fun t => { t with temporary := none })

/-- Remove a backup that is still the one that was validated. -/
def removeBackup (name : String) (backup : String × Backup) : JournalM Unit := do
  checkTransaction name (fun t =>
    match t.backup (recommendationFilename backup.1) with
    | none => .error missingFile
    | some bytes => refuseInvalid (bytes != backup.2.1) "backup changed during recovery")
  stepTransaction name (fun t => t.dropBackup (recommendationFilename backup.1))

def removeBackups (recovery : Recovery) : JournalM Unit :=
  match recovery.transaction.backups with
  | none => pure ()
  | some _ => do
    Prog.forEach (removeBackup recovery.name) recovery.backups.toList
    checkTransaction recovery.name (fun t =>
      if t.backups.all (·.isEmpty) then .ok () else .error notEmptyError)
    stepTransaction recovery.name (fun t => { t with backups := none })

def removeStaged (recovery : Recovery) : JournalM Unit :=
  match recovery.transaction.staged with
  | none => pure ()
  | some _ => do
    checkTransaction recovery.name (fun t =>
      if t.staged.all (·.isEmpty) then .ok () else .error notEmptyError)
    stepTransaction recovery.name (fun t => { t with staged := none })

def removeManifest (recovery : Recovery) : JournalM Unit :=
  match recovery.transaction.manifest with
  | none => pure ()
  | some _ => stepTransaction recovery.name (fun t => { t with manifest := none })

def removeTransaction (name : String) : JournalM Unit := do
  checkTransaction name (fun t => if t.isEmpty then .ok () else .error notEmptyError)
  Prog.step (fun d => { d with journal := d.journal.map (fun journal => journal.erase name) })

def removeJournal : JournalM Unit := do
  Prog.check (fun d => if d.journal.all (·.isEmpty) then .ok () else .error notEmptyError)
  Prog.step (fun d => { d with journal := none })

/-- Remove the journal once the records are settled, the manifest after the
backups it vouches for. -/
def cleanJournal (recovery : Recovery) : JournalM Unit := do
  removeTemporary recovery
  removeBackups recovery
  removeStaged recovery
  removeManifest recovery
  removeTransaction recovery.name
  removeJournal

def finishRecovery (env : Env) (recovery : Recovery) : JournalM Unit := do
  if recovery.committed then Prog.forEach (removeTarget recovery.leaves) recovery.entries
  else pure ()
  checkGraph env
  cleanJournal recovery

def recoverExpected (env : Env) (expected : Option (TextMap Bytes)) : JournalM Unit := do
  match ← Prog.check (validateJournal env expected) with
  | .absent => pure ()
  | .empty => removeJournal
  | .transaction recovery => finishRecovery env recovery

/-- `protocol::recover`. -/
def recover (env : Env) : JournalM Unit := recoverExpected env none

/-! ## Publishing a removal -/

/-- What `publish` checks before it writes anything. -/
def verifyPublication (env : Env) (removal : PreparedRemoval) (d : Disk) :
    Except StoreError Unit := do
  let inventory ← asInvalid (readRecords env d.files)
  asInvalid (validateGraphRecords env.digests inventory.records)
  refuseInvalid (!sameLeaves inventory.leaves removal.inventory.leaves)
    "recommendation inventory changed before publication"
  boundNames (d.journal.getD ∅).size
  refuseInvalid (!(d.journal.getD ∅).isEmpty) "recommendation recovery required"

/-- The backup of one target. -/
def backUp (name : String) (leaves : TextMap Bytes) (entry : RollupTransactionEntry) :
    JournalM Unit :=
  writeBackup name entry.target ((leaves[entry.id]?).getD [])

/-- `publish` up to the rename to the committed manifest. -/
def stageRemoval (name : String) (removal : PreparedRemoval) : JournalM Unit := do
  makeJournal
  makeTransaction name
  makeBackups name
  makeStaged name
  Prog.forEach (backUp name removal.inventory.leaves) removal.entries
  stageManifest name (removal.manifestBytes false) none
  renameManifest name
  stageManifest name (removal.manifestBytes true) (some (removal.manifestBytes false))

/-- `publish` from the rename to the committed manifest. -/
def publishRemoval (env : Env) (name : String) (removal : PreparedRemoval) : JournalM Unit := do
  renameManifest name
  recoverExpected env (some removal.inventory.leaves)

/-- `publish`; `uuid` is the `Uuid::new_v4` of the directory's name. -/
def publish (env : Env) (uuid : String) (removal : PreparedRemoval) : JournalM Unit := do
  Prog.check (verifyPublication env removal)
  if removal.entries.isEmpty then pure ()
  else do
    stageRemoval ("tx-" ++ uuid) removal
    publishRemoval env ("tx-" ++ uuid) removal

end Orkworksd.Taskmaster.Deletion
