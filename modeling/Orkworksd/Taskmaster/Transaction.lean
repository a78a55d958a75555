import Mathlib.Data.List.Infix
import Orkworksd.Lib.Crash
import Orkworksd.Lib.TextMap
import Orkworksd.Taskmaster.Graph

/- The durable transactions of the recommendation store (`taskmaster/store.rs`):
   `commit_replacements`, `publish_entry`, `rollback_transaction` and
   `recover_transactions` over a disk.

   A `Disk` is the recommendations directory: its regular files, and the directory
   `.rollup-transactions` when it exists, with the files of every transaction
   directory under their relative paths. A program lists the disks a crash may
   leave behind: a rename or a removal is one step, a file being written may hold
   any prefix of its bytes, and a directory tree being removed may have lost any
   of its files. Directory syncs order these steps and change nothing. The
   operating system's failures other than a missing file are not modelled, a
   directory is read in name order, and `target.exists()` only selects between two
   ways of renaming. Serialisation is a parameter (`Serde`). -/
namespace Orkworksd.Taskmaster
open Lib

abbrev Files := TextMap Bytes

structure Disk where
  files : Files
  transactions : Option (TextMap Files)

structure RollupTransactionEntry where
  id : String
  target : String
  staged : Option String
  backup : Option String
  oldSha256 : Option String
  oldExists : Bool
  newSha256 : Option String
  newExists : Bool
  deriving DecidableEq, Repr

structure RollupTransactionManifest where
  version : Nat
  committed : Bool
  entries : List RollupTransactionEntry
  deriving DecidableEq, Repr

structure Replacement where
  old : Option Bytes
  new : Option Bytes
  deriving DecidableEq, Repr

/-- `serde_json` for the two file formats of the store. -/
structure Serde where
  encode : Recommendation → Bytes
  decode : Bytes → Except String Recommendation
  encodeManifest : RollupTransactionManifest → Bytes
  decodeManifest : Bytes → Except String RollupTransactionManifest

/-- Deserialising what was serialised gives it back. -/
structure Serde.Lawful (serde : Serde) : Prop where
  decode_encode : ∀ recommendation, serde.decode (serde.encode recommendation) = .ok recommendation
  decodeManifest_encode : ∀ manifest,
    serde.decodeManifest (serde.encodeManifest manifest) = .ok manifest

/-- What the store takes from outside the repository. -/
structure Env where
  digests : Digests
  serde : Serde

abbrev StoreM := Prog Disk StoreError

def manifestPath : String := "manifest.json"
def manifestTemporary : String := "manifest.json.tmp"
def transactionStagedPath (id : String) : String := "staged/" ++ filenameComponent id ++ ".json"
def transactionBackupPath (id : String) : String := "backups/" ++ filenameComponent id ++ ".json"
def transactionRestorePath (id : String) : String := "restore-" ++ filenameComponent id ++ ".json"

def missingFile : StoreError := .io "No such file or directory (os error 2)"

/-! ## File operations -/

namespace Disk

def transactionFile (d : Disk) (root path : String) : Option Bytes :=
  (d.transactions.bind (fun roots => roots[root]?)).bind (fun files => files[path]?)

def modifyTransaction (d : Disk) (root : String) (f : Files → Files) : Disk :=
  { d with transactions := d.transactions.map (fun roots => roots.modify root f) }

end Disk

/-- `fs::create_dir_all` of a transaction directory: first the directory of all
transactions, then its own. -/
def createTransactionDir (root : String) : StoreM Unit := do
  Prog.step (fun d => { d with transactions := some (d.transactions.getD ∅) })
  Prog.step (fun d => { d with transactions := d.transactions.map (fun roots =>
    if roots.contains root then roots else roots.insert root ∅) })

/-- `write_sync` into a transaction directory. -/
def writeSync (root path : String) (bytes : Bytes) : StoreM Unit :=
  Prog.during
    (fun d => bytes.inits.map (fun written =>
      d.modifyTransaction root (fun files => files.insert path written)))
    (fun d => d.modifyTransaction root (fun files => files.insert path bytes))

def readTransactionFile (root path : String) : StoreM Bytes :=
  Prog.check (fun d => match d.transactionFile root path with
    | some bytes => .ok bytes
    | none => .error missingFile)

/-- `atomic_replace` of a file of the directory by one of the transaction. -/
def replaceTarget (root path target : String) : StoreM Unit := do
  let bytes ← readTransactionFile root path
  Prog.step (fun d =>
    { (d.modifyTransaction root (fun files => files.erase path)) with
      files := d.files.insert target bytes })

/-- `atomic_replace` inside a transaction directory. -/
def renameTransactionFile (root path target : String) : StoreM Unit := do
  let bytes ← readTransactionFile root path
  Prog.step (fun d => d.modifyTransaction root (fun files => (files.erase path).insert target bytes))

/-- `fs::remove_file` of a recommendation file, a missing one being fine. -/
def removeTarget (target : String) : StoreM Unit :=
  Prog.step (fun d => { d with files := d.files.erase target })

def removeTransactionFile (root path : String) : StoreM Unit := do
  let _ ← readTransactionFile root path
  Prog.step (fun d => d.modifyTransaction root (fun files => files.erase path))

/-- `fs::remove_dir_all` of a transaction directory: a crash may find any part of
its files gone. -/
def removeTransactionDir (root : String) : StoreM Unit :=
  Prog.during
    (fun d => match d.transactions.bind (fun roots => roots[root]?) with
      | none => []
      | some files => files.keys.sublists.map (fun gone =>
          d.modifyTransaction root (fun files => gone.foldl (fun files path => files.erase path) files)))
    (fun d => { d with transactions := d.transactions.map (fun roots => roots.erase root) })

/-! ## Reading and validating the directory -/

/-- `path.extension() == Some("json")`. -/
def isJsonFile (name : String) : Bool :=
  ".json".toList.isSuffixOf name.toList && name != ".json"

/-- `read_path`, the loop body of `read_all`. -/
def readRecord (env : Env) (bytes : Bytes) : Except StoreError Recommendation := do
  let recommendation ← (env.serde.decode bytes).mapError .json
  validateRecommendation env.digests recommendation
  return recommendation

def readFiles (env : Env) : List (String × Bytes) → Except StoreError (List (Recommendation × Bytes))
  | [] => .ok []
  | (name, bytes) :: rest =>
    if isJsonFile name then do
      let recommendation ← readRecord env bytes
      let others ← readFiles env rest
      return (recommendation, bytes) :: others
    else readFiles env rest

def readAllStored (env : Env) (files : Files) : Except StoreError (List (Recommendation × Bytes)) :=
  readFiles env files.toList

def readAll (env : Env) (files : Files) : Except StoreError (List Recommendation) :=
  (readAllStored env files).map (fun stored => stored.map Prod.fst)

def validateGraph (env : Env) (files : Files) : Except StoreError Unit := do
  let records ← readAll env files
  validateGraphRecords env.digests records

/-! ## Committing a transaction -/

def manifestEntry (env : Env) (id : String) (replacement : Replacement) : RollupTransactionEntry where
  id := id
  target := recommendationFilename id
  staged := replacement.new.map (fun _ => transactionStagedPath id)
  backup := replacement.old.map (fun _ => transactionBackupPath id)
  oldSha256 := replacement.old.map env.digests.sha256
  oldExists := replacement.old.isSome
  newSha256 := replacement.new.map env.digests.sha256
  newExists := replacement.new.isSome

/-- `write_sync` of contents there may be none of. -/
def writeOptional (root path : String) : Option Bytes → StoreM Unit
  | some bytes => writeSync root path bytes
  | none => pure ()

/-- The backup and the staged file of one replacement. -/
def stageReplacement (root : String) (item : String × Replacement) : StoreM Unit := do
  writeOptional root (transactionBackupPath item.1) item.2.old
  writeOptional root (transactionStagedPath item.1) item.2.new

/-- The first half of `write_manifest_atomic`. -/
def writeManifestTemporary (env : Env) (root : String) (manifest : RollupTransactionManifest) :
    StoreM Unit :=
  writeSync root manifestTemporary (env.serde.encodeManifest manifest)

/-- The second half of `write_manifest_atomic`: the rename that publishes it. -/
def publishManifest (root : String) : StoreM Unit :=
  renameTransactionFile root manifestTemporary manifestPath

def publishEntry (env : Env) (root : String) (entry : RollupTransactionEntry) : StoreM Unit :=
  if !entry.newExists then removeTarget entry.target
  else do
    let current ← Prog.look (fun d => d.files[entry.target]?)
    if current.any (fun bytes => some (env.digests.sha256 bytes) == entry.newSha256) then pure ()
    else match entry.staged with
      | none => Prog.fail (.recovery
          ("transaction entry " ++ entry.id ++ " has no staged replacement"))
      | some staged => do
        let bytes ← readTransactionFile root staged
        if some (env.digests.sha256 bytes) != entry.newSha256 then
          Prog.fail (.recovery ("staged replacement hash mismatch for " ++ entry.id))
        else replaceTarget root staged entry.target

def rollbackEntry (env : Env) (root : String) (entry : RollupTransactionEntry) : StoreM Unit :=
  if entry.oldExists then
    match entry.backup with
    | none => Prog.fail (.recovery
        ("transaction entry " ++ entry.id ++ " has no old-content backup"))
    | some backup => do
      let bytes ← readTransactionFile root backup
      if some (env.digests.sha256 bytes) != entry.oldSha256 then
        Prog.fail (.recovery ("old-content backup hash mismatch for " ++ entry.id))
      else do
        writeSync root (transactionRestorePath entry.id) bytes
        replaceTarget root (transactionRestorePath entry.id) entry.target
  else removeTarget entry.target

def rollbackTransaction (env : Env) (root : String) (entries : List RollupTransactionEntry) :
    StoreM Unit :=
  Prog.forEach (rollbackEntry env root) entries

def finishTransactionCleanup (root : String) : StoreM Unit := do
  removeTransactionFile root manifestPath
  removeTransactionDir root

def verifyExpected (env : Env) (files : Files) (current : List Recommendation) :
    List (String × Option String) → Except StoreError Unit
  | [] =>
    if current.any (fun recommendation => !validId recommendation.id) then
      .error (.graphInvariant "recommendation ID is not a safe file name")
    else .ok ()
  | (id, expectedHash) :: expected =>
    if !validId id then .error (.staleExpectedHash id)
    else if expectedHash != (files[recommendationFilename id]?).map env.digests.sha256 then
      .error (.staleExpectedHash id)
    else verifyExpected env files current expected

/-- Every file still has the contents its replacement started from. -/
def verifyReplacements (files : Files) : List (String × Replacement) → Except StoreError Unit
  | [] => .ok ()
  | (id, replacement) :: replacements =>
    if files[recommendationFilename id]? != replacement.old then .error (.staleExpectedHash id)
    else verifyReplacements files replacements

/-- The checks `commit_replacements` makes before it writes anything. -/
def verifyCommit (env : Env) (expected : TextMap (Option String))
    (replacements : TextMap Replacement) (files : Files) : Except StoreError Unit := do
  let current ← readAll env files
  verifyExpected env files current expected.toList
  verifyReplacements files replacements.toList

/-- The manifest of a transaction in its two phases. -/
def transactionManifest (env : Env) (replacements : List (String × Replacement))
    (committed : Bool) : RollupTransactionManifest where
  version := 2
  committed := committed
  entries := replacements.map (fun item => manifestEntry env item.1 item.2)

/-- `commit_replacements` up to the rename that commits. -/
def stageTransaction (env : Env) (root : String) (replacements : List (String × Replacement)) :
    StoreM Unit := do
  createTransactionDir root
  Prog.forEach (stageReplacement root) replacements
  writeManifestTemporary env root (transactionManifest env replacements false)
  publishManifest root
  writeManifestTemporary env root (transactionManifest env replacements true)

/-- The end of `commit_replacements` when the published graph is not valid. -/
def abandonTransaction (env : Env) (root : String) (entries : List RollupTransactionEntry)
    (error : StoreError) : StoreM Unit := do
  let rollback ← Prog.attempt (rollbackTransaction env root entries)
  match rollback with
  | .error rollbackError => Prog.fail (.recovery ("published graph invalid (" ++ error.display
      ++ "); rollback failed: " ++ rollbackError.display))
  | .ok _ => do
    Prog.check (fun d => (validateGraph env d.files).mapError (fun rollbackError =>
      .recovery ("published graph invalid (" ++ error.display
        ++ "); old graph invalid after rollback: " ++ rollbackError.display)))
    Prog.fail error

/-- `commit_replacements` from the rename that commits. -/
def publishTransaction (env : Env) (root : String) (replacements : List (String × Replacement)) :
    StoreM Unit := do
  let entries := (transactionManifest env replacements true).entries
  publishManifest root
  Prog.forEach (publishEntry env root) entries
  let graph ← Prog.look (fun d => validateGraph env d.files)
  match graph with
  | .error error => abandonTransaction env root entries error
  | .ok _ => finishTransactionCleanup root

/-- `commit_replacements`; `uuid` is the `Uuid::new_v4` of the directory's name. -/
def commitReplacements (env : Env) (uuid : String) (expected : TextMap (Option String))
    (replacements : TextMap Replacement) : StoreM Unit := do
  Prog.check (fun d => verifyCommit env expected replacements d.files)
  if replacements.isEmpty then pure ()
  else do
    stageTransaction env ("tx-" ++ uuid) replacements.toList
    publishTransaction env ("tx-" ++ uuid) replacements.toList

/-! ## Recovery -/

/-- The path has a `..` component. -/
def hasParentDir (path : List Char) : Bool :=
  path == ['.', '.'] || ['.', '.', '/'].isPrefixOf path || ['/', '.', '.'].isSuffixOf path
    || decide (['/', '.', '.', '/'] <:+: path)

def escapesDirectory (relative : String) : Bool :=
  relative.toList.head? == some '/' || hasParentDir relative.toList

def validateManifestEntries : List String → List RollupTransactionEntry → Except StoreError Unit
  | _, [] => .ok ()
  | ids, entry :: entries =>
    if !validId entry.id || entry.target != recommendationFilename entry.id
        || ids.contains entry.id
        || entry.oldExists != entry.oldSha256.isSome
        || entry.oldExists != entry.backup.isSome
        || entry.newExists != entry.newSha256.isSome
        || entry.newExists != entry.staged.isSome then
      .error (.recovery ("invalid transaction entry for " ++ entry.id))
    else if entry.staged != (if entry.newExists then some (transactionStagedPath entry.id) else none)
        || entry.backup
          != (if entry.oldExists then some (transactionBackupPath entry.id) else none) then
      .error (.recovery ("invalid transaction paths for " ++ entry.id))
    else if (entry.staged.toList ++ entry.backup.toList).any escapesDirectory then
      .error (.recovery ("transaction entry " ++ entry.id ++ " escapes its directory"))
    else validateManifestEntries (entry.id :: ids) entries

/-- `migrate_transaction_path` for a recommendation file. -/
def migrateTarget (source destination id : String) : StoreM Unit := do
  let files ← Prog.look (·.files)
  if source == destination then pure ()
  else match files[source]? with
    | none => pure ()
    | some bytes =>
      if files.contains destination then
        Prog.fail (.recovery ("both legacy and encoded transaction paths exist for " ++ id))
      else Prog.step (fun d => { d with files := (d.files.erase source).insert destination bytes })

/-- `migrate_transaction_path` inside a transaction directory. -/
def migrateTransactionFile (root source destination id : String) : StoreM Unit := do
  let found ← Prog.look (fun d => (d.transactionFile root source, d.transactionFile root destination))
  if source == destination || found.1.isNone then pure ()
  else if found.2.isSome then
    Prog.fail (.recovery ("both legacy and encoded transaction paths exist for " ++ id))
  else renameTransactionFile root source destination

def migrateOptionalTransactionPath (root : String) (path : Option String)
    (legacy current id : String) : StoreM (Option String) :=
  if path != some legacy then pure path
  else do
    migrateTransactionFile root legacy current id
    return some current

def migrateLegacyEntry (root : String) (entry : RollupTransactionEntry) :
    StoreM RollupTransactionEntry :=
  if !validId entry.id then pure entry
  else do
    let target ← if entry.target == entry.id ++ ".json" then do
        migrateTarget (entry.id ++ ".json") (recommendationFilename entry.id) entry.id
        pure (recommendationFilename entry.id)
      else pure entry.target
    let staged ← migrateOptionalTransactionPath root entry.staged
      ("staged/" ++ entry.id ++ ".json") (transactionStagedPath entry.id) entry.id
    let backup ← migrateOptionalTransactionPath root entry.backup
      ("backups/" ++ entry.id ++ ".json") (transactionBackupPath entry.id) entry.id
    return { entry with target := target, staged := staged, backup := backup }

def migrateLegacyTransactionPaths (root : String) :
    List RollupTransactionEntry → StoreM (List RollupTransactionEntry)
  | [] => pure []
  | entry :: entries => do
    let migrated ← migrateLegacyEntry root entry
    let rest ← migrateLegacyTransactionPaths root entries
    return migrated :: rest

/-- The entries of a manifest under the paths of the current version. -/
def currentEntries (root : String) (manifest : RollupTransactionManifest) :
    StoreM (List RollupTransactionEntry) :=
  if manifest.version != 1 && manifest.version != 2 then
    Prog.fail (.recovery ("unsupported rollup transaction version " ++ toString manifest.version))
  else if manifest.version == 1 then migrateLegacyTransactionPaths root manifest.entries
  else pure manifest.entries

/-- The end of `recover_transaction` when the new graph is not to be kept. -/
def rollBackAndFinish (env : Env) (root : String) (entries : List RollupTransactionEntry) :
    StoreM Unit := do
  rollbackTransaction env root entries
  Prog.check (fun d => (validateGraph env d.files).mapError (fun error =>
    .recovery ("neither old nor new recommendation graph is valid: " ++ error.display)))
  finishTransactionCleanup root

/-- `recover_transaction` for a committed manifest. -/
def recoverCommitted (env : Env) (root : String) (entries : List RollupTransactionEntry) :
    StoreM Unit := do
  let published ← Prog.attempt (Prog.forEach (publishEntry env root) entries)
  let graph ← Prog.look (fun d => validateGraph env d.files)
  match published, graph with
  | .ok _, .ok _ => finishTransactionCleanup root
  | _, _ => rollBackAndFinish env root entries

/-- `recover_transaction`, given the bytes of its manifest. -/
def recoverTransaction (env : Env) (root : String) (manifestJson : Bytes) : StoreM Unit :=
  match env.serde.decodeManifest manifestJson with
  | .error error => Prog.fail (.recovery ("invalid rollup manifest: " ++ error))
  | .ok manifest => do
    let entries ← currentEntries root manifest
    Prog.check (fun _ => validateManifestEntries [] entries)
    if manifest.committed then recoverCommitted env root entries
    else rollBackAndFinish env root entries

/-- The loop body of `recover_transactions`: a directory without a manifest never
got to publish anything. -/
def recoverDirectory (env : Env) (root : String) : StoreM Unit := do
  let manifest ← Prog.look (fun d => d.transactionFile root manifestPath)
  match manifest with
  | none => removeTransactionDir root
  | some manifestJson => recoverTransaction env root manifestJson

/-- The end of `recover_transactions`. -/
def removeEmptyTransactions : StoreM Unit := do
  let roots ← Prog.look (·.transactions)
  if roots.any (·.isEmpty) then Prog.step (fun d => { d with transactions := none })
  else pure ()

def recoverTransactions (env : Env) : StoreM Unit := do
  let roots ← Prog.look (·.transactions)
  match roots with
  | none => pure ()
  | some roots => do
    Prog.forEach (recoverDirectory env) roots.keys
    removeEmptyTransactions

end Orkworksd.Taskmaster
