import Orkworksd.Lib.Crash
import Orkworksd.Taskmaster.Coordinator

/- The store of coordinator plans (`taskmaster/coordinator_store.rs`).

   The directory `coordinator/plans` has one directory per plan, with a file per revision and
   the temporary file of a revision that is being published. Only the store writes there, so
   those are all the entries. An operation is a program over the disk (`Lib.Prog`): it runs
   under the lease, reads the clock as often as the code does, and any of its file operations
   may fail (`Host`). A crash leaves the disk as the steps before it have made it.

   The lock file and the flushes are operations that change nothing and may fail. An error of
   an operation says which one it was; `published` is the flush after the rename. `get`, which
   only reads, is left out, and so is a poisoned mutex. -/
namespace Orkworksd.Coordinator
open Lib

def maxRecordBytes : Nat := 2 * 1024 * 1024 + 8192

inductive FileStep where
  | lease
  | directory
  | read
  | remove
  | create
  | write
  | sync
  | rename
  | published
  deriving DecidableEq, Repr

inductive StoreError where
  | io (step : FileStep)
  | invalid (reason : String)
  | refused (error : CoordinatorError)
  | stale
  deriving DecidableEq, Repr

structure StoredPlan where
  plan : PlanRevision
  status : PlanStatus
  approval : Option PlanApproval
  approvalHistory : List PlanApproval
  deriving DecidableEq, Repr

structure DiskRecord where
  plan : PlanRevision
  status : PlanStatus
  approval : Option PlanApproval
  approvalHistory : Option (List PlanApproval)

/-! ## What serde writes and reads -/

def PlanStatus.name : PlanStatus → String
  | .draft => "draft"
  | .proposed => "proposed"
  | .active => "active"
  | .readyForUserReview => "ready_for_user_review"
  | .paused => "paused"
  | .recoveryRequired => "recovery_required"
  | .completed => "completed"
  | .failed => "failed"
  | .cancelled => "cancelled"
  | .expired => "expired"
  | .revoked => "revoked"

def PlanStatus.all : List PlanStatus :=
  [.draft, .proposed, .active, .readyForUserReview, .paused, .recoveryRequired, .completed,
    .failed, .cancelled, .expired, .revoked]

def PlanStatus.read (v : Json) : Option PlanStatus := do
  let tag ← Json.variant v
  PlanStatus.all.find? (fun status => status.name = tag)

def PlanApproval.members (a : PlanApproval) : Members :=
  [("version", Json.ofNat a.version.toNat), ("approval_id", .string a.approvalId),
    ("user_id", .string a.userId), ("instance_id", .string a.instanceId),
    ("workspace_id", .string a.workspaceId), ("plan_id", .string a.planId),
    ("revision", Json.ofNat a.revision.toNat), ("plan_digest", .string a.planDigest),
    ("evidence_digest", .string a.evidenceDigest), ("approved_at", .string a.approvedAt),
    ("expires_at", .string a.expiresAt),
    ("revocation_generation", Json.ofNat a.revocationGeneration.toNat),
    ("supersedes", Json.ofOption Json.string a.supersedes)]

def PlanApproval.value (a : PlanApproval) : Json := .object a.members

def approvalNames : List String :=
  ["version", "approval_id", "user_id", "instance_id", "workspace_id", "plan_id", "revision",
    "plan_digest", "evidence_digest", "approved_at", "expires_at", "revocation_generation",
    "supersedes"]

def PlanApproval.read : Json → Option PlanApproval :=
  Json.fields 0 approvalNames fun m => do
    let version ← Json.field m "version" u32
    let approvalId ← Json.field m "approval_id" Json.text
    let userId ← Json.field m "user_id" Json.text
    let instanceId ← Json.field m "instance_id" Json.text
    let workspaceId ← Json.field m "workspace_id" Json.text
    let planId ← Json.field m "plan_id" Json.text
    let revision ← Json.field m "revision" u64
    let planDigest ← Json.field m "plan_digest" Json.text
    let evidenceDigest ← Json.field m "evidence_digest" Json.text
    let approvedAt ← Json.field m "approved_at" Json.text
    let expiresAt ← Json.field m "expires_at" Json.text
    let revocationGeneration ← Json.field m "revocation_generation" u64
    let supersedes ← Json.optional m "supersedes" Json.text
    some { version, approvalId, userId, instanceId, workspaceId, planId, revision, planDigest,
           evidenceDigest, approvedAt, expiresAt, revocationGeneration, supersedes }

def StoredPlan.members (r : StoredPlan) : Members :=
  [("plan", r.plan.value), ("status", .string r.status.name),
    ("approval", Json.ofOption PlanApproval.value r.approval),
    ("approval_history", .array (r.approvalHistory.map PlanApproval.value))]

def StoredPlan.value (r : StoredPlan) : Json := .object r.members

def StoredPlan.bytes (r : StoredPlan) : List UInt8 := r.value.bytes

def recordNames : List String := ["plan", "status", "approval", "approval_history"]

/-- A history that is present has to be an array. -/
def readHistory (m : Members) : Option (Option (List PlanApproval)) :=
  match OrderedMap.get m "approval_history" with
  | none => some none
  | some value => (Json.list PlanApproval.read value).map some

def DiskRecord.read (env : Env) : Json → Option DiskRecord :=
  Json.fields 1 recordNames fun m => do
    let plan ← Json.field m "plan" (PlanRevision.read env)
    let status ← Json.field m "status" PlanStatus.read
    let approval ← Json.optional m "approval" PlanApproval.read
    let approvalHistory ← readHistory m
    some { plan, status, approval, approvalHistory }

/-! ## The host -/

/-- A revision of a plan. -/
abbrev Key : Type := String × UInt64

structure Disk where
  dirs : List String
  files : OrderedMap Key (List UInt8)
  temps : OrderedMap Key (List UInt8)

/-- The disk, and how often the clock was read and a file operation was made. -/
structure World where
  disk : Disk
  ticks : Nat
  operations : Nat

def validStoreId (value : String) : Bool :=
  !value.isEmpty && value.utf8ByteSize ≤ 128 &&
    value.toList.all (fun c => c.isAlphanum || c = '.' || c = '_' || c = '-')

structure Host where
  env : Env
  /-- What the clock says each time it is read. -/
  clock : Nat → Int
  /-- Whether a file operation fails. -/
  faults : Nat → Bool
  /-- How much of a write that fails reached the file. -/
  written : Nat → Nat
  instanceId : String
  workspaceId : String

abbrev Op (α : Type) : Type := Prog World StoreError α

section host
variable (host : Host)

/-- `Utc::now()`. -/
def now : Op Int := fun w =>
  ⟨[], .ok (host.clock w.ticks), { w with ticks := w.ticks + 1 }⟩

/-- A file operation that changes nothing on the disk. -/
def touch (step : FileStep) : Op Unit := fun w =>
  ⟨[], if host.faults w.operations then .error (.io step) else .ok (),
    { w with operations := w.operations + 1 }⟩

def changeDisk (f : Disk → Disk) : Op Unit := Prog.step (fun w => { w with disk := f w.disk })

def lift {α : Type} (result : Result α) : Op α :=
  match result with
  | .ok a => Prog.pure a
  | .error e => Prog.fail (.refused e)

/-- `map_err(|_| Stale)`. -/
def liftStale {α : Type} (result : Result α) : Op α :=
  match result with
  | .ok a => Prog.pure a
  | .error _ => Prog.fail .stale

def require (allowed : Bool) (e : StoreError) : Op Unit :=
  if allowed then Prog.pure () else Prog.fail e

/-! ## Reading -/

def safeId (id : String) : Bool :=
  !id.isEmpty && id.utf8ByteSize ≤ 128 &&
    id.toList.all (fun c => c.isLower || c.isDigit || c = '.' || c = '_' || c = '-') &&
    id ≠ "." && id ≠ ".."

/-- The loop over the history of a record. -/
def checkHistory (plan : PlanRevision) : List PlanApproval → List String → Option Int → Op Unit
  | [], _, _ => Prog.pure ()
  | entry :: entries, ids, previousAt => do
    let time ← now host
    lift (entry.validateHistoricalAgainst host.env plan time)
    match host.env.parseTime entry.approvedAt with
    | none => Prog.fail (.invalid "approval timestamp")
    | some approvedAt => do
      require
        (!(ids.contains entry.approvalId || previousAt.any (fun previous => approvedAt ≤ previous)))
        (.invalid "approval history")
      checkHistory plan entries (entry.approvalId :: ids) (some approvedAt)

/-- The checks of the status, the approval and the history of a record. -/
def checkApprovals (disk : DiskRecord) : Op StoredPlan := do
  require (!(disk.status = .draft || (disk.status = .proposed && disk.approval.isSome)))
    (.invalid "approval state")
  let history := disk.approvalHistory.getD disk.approval.toList
  match disk.approval with
  | some approval =>
    require (history.getLast? = some approval) (.invalid "approval history")
    checkHistory host disk.plan history [] none
  | none =>
    require (!([PlanStatus.active, .readyForUserReview, .completed, .failed].contains disk.status))
      (.invalid "missing approval")
    require history.isEmpty (.invalid "approval history")
  Prog.pure
    { plan := disk.plan
      status := disk.status
      approval := disk.approval
      approvalHistory := history }

def readRecord (bytes : List UInt8) (key : Key) : Op StoredPlan := do
  touch host .read
  require (bytes.length ≤ maxRecordBytes) (.invalid "record size")
  match (host.env.parseJson bytes).bind (DiskRecord.read host.env) with
  | none => Prog.fail (.invalid "record")
  | some disk => do
    require (safeId disk.plan.planId) (.invalid "plan id")
    require (disk.plan.planId = key.1 && disk.plan.revision = key.2)
      (.invalid "record path mismatch")
    checkApprovals host disk

/-- `validate_record`. -/
def checkIdentity (plan : PlanRevision) : Op Unit :=
  require (plan.instanceId = host.instanceId && plan.workspaceId = host.workspaceId)
    (.invalid "store identity")

def readEntry (entry : Key × List UInt8) : Op StoredPlan := do
  require (entry.1.2 ≠ 0) (.invalid "revision file type")
  let record ← readRecord host entry.2 entry.1
  checkIdentity host record.plan
  Prog.pure record

def readEntries : List (Key × List UInt8) → Op (List StoredPlan)
  | [] => Prog.pure []
  | entry :: entries => do
    let record ← readEntry host entry
    let records ← readEntries entries
    Prog.pure (record :: records)

/-- The directories of the plans, each with its revisions. -/
def readDirs : List String → Op (List StoredPlan)
  | [] => Prog.pure []
  | dir :: dirs => do
    touch host .read
    require (safeId dir) (.invalid "plan id")
    let files ← Prog.look (fun w : World => w.disk.files.filter (fun entry => entry.1.1 = dir))
    let records ← readEntries host files
    let rest ← readDirs dirs
    Prog.pure (records ++ rest)

def readAll : Op (List StoredPlan) := do
  touch host .read
  let dirs ← Prog.look (fun w : World => w.disk.dirs)
  readDirs host dirs

def readAt (key : Key) : Op (Option StoredPlan) := do
  touch host .read
  let found ← Prog.look (fun w : World => w.disk.files.get key)
  match found with
  | none => Prog.pure none
  | some bytes => do
    let record ← readRecord host bytes key
    checkIdentity host record.plan
    Prog.pure (some record)

/-! ## Recovery -/

def removeTemp (key : Key) : Op Unit := do
  touch host .remove
  changeDisk (fun disk => { disk with temps := disk.temps.erase key })
  touch host .sync

def recoverDir (dir : String) : Op Unit := do
  touch host .read
  let temps ← Prog.look (fun w : World => w.disk.temps.keys.filter (fun key => key.1 = dir))
  Prog.forEach (removeTemp host) temps
  touch host .sync

def recoverInner : Op Unit := do
  let _ ← readAll host
  let dirs ← Prog.look (fun w : World => w.disk.dirs)
  Prog.forEach (recoverDir host) dirs

/-- `CoordinatorStore::open` over the directory that is there. -/
def openStore : Op Unit := do
  require (validStoreId host.instanceId) (.invalid "instance id")
  require (validStoreId host.workspaceId) (.invalid "workspace id")
  touch host .directory
  touch host .lease
  touch host .sync
  recoverInner host

/-! ## Publication -/

def requiresLiveApproval (status : PlanStatus) : Bool :=
  [PlanStatus.active, .readyForUserReview, .completed].contains status

def checkCurrentRevision (key : Key) : Op Unit := do
  let records ← readAll host
  require (!records.any (fun record => record.plan.planId = key.1 && key.2 < record.plan.revision))
    .stale

/-- `ensure_durable_directory` of the plan's directory. -/
def ensureDirectory (dir : String) : Op Unit := do
  touch host .directory
  changeDisk (fun disk =>
    if dir ∈ disk.dirs then disk else { disk with dirs := disk.dirs ++ [dir] })
  touch host .directory

/-- `create_new` and `write_all`: an error leaves part of the text, and so does a crash. -/
def createTemp (key : Key) (bytes : List UInt8) : Op Unit := do
  touch host .create
  let found ← Prog.look (fun w : World => (w.disk.temps.get key).isSome)
  require (!found) (.io .create)
  changeDisk (fun disk => { disk with temps := disk.temps.set key [] })
  let place ← Prog.look (fun w : World => w.operations)
  if host.faults place then
    changeDisk (fun disk =>
      { disk with temps := disk.temps.set key (bytes.take (host.written place)) })
    touch host .write
  else
    touch host .write
    Prog.during
      (fun w : World => bytes.inits.map (fun part =>
        { w with disk := { w.disk with temps := w.disk.temps.set key part } }))
      (fun w => { w with disk := { w.disk with temps := w.disk.temps.set key bytes } })

def rename (key : Key) (bytes : List UInt8) : Op Unit := do
  touch host .rename
  changeDisk (fun disk =>
    { disk with files := disk.files.set key bytes, temps := disk.temps.erase key })

def publish (key : Key) (expected : Option StoredPlan) (record : StoredPlan) : Op Unit := do
  ensureDirectory host key.1
  require (record.bytes.length ≤ maxRecordBytes) (.invalid "record size")
  let before ← readAt host key
  require (before = expected) .stale
  createTemp host key record.bytes
  touch host .sync
  let again ← readAt host key
  require (again = expected) .stale
  if expected.isNone || requiresLiveApproval record.status then checkCurrentRevision host key
  else Prog.pure ()
  if requiresLiveApproval record.status then
    match record.approval with
    | none => Prog.fail .stale
    | some approval => do
      let time ← now host
      liftStale (approval.validateAgainstAt host.env record.plan time)
  else Prog.pure ()
  rename host key record.bytes
  touch host .published

/-! ## Operations -/

/-- The lease and the recovery that every operation starts with. -/
def enter : Op Unit := do
  touch host .lease
  recoverInner host

def putProposed (plan : PlanRevision) : Op Unit := do
  enter host
  lift (plan.validate host.env)
  checkIdentity host plan
  require (safeId plan.planId) (.invalid "plan id")
  let records ← readAll host
  let own := records.filter (fun record => record.plan.planId = plan.planId)
  match own.find? (fun record => record.plan.revision = plan.revision) with
  | some current =>
    if current.plan = plan && current.status = .proposed then touch host .sync
    else Prog.fail .stale
  | none => do
    require (!own.any (fun record => plan.revision ≤ record.plan.revision)) .stale
    publish host (plan.planId, plan.revision) none
      { plan := plan, status := .proposed, approval := none, approvalHistory := [] }

/-- A record after an approval took effect. -/
def StoredPlan.approve (record : StoredPlan) (approval : PlanApproval) : StoredPlan :=
  { record with
    status := .active
    approval := some approval
    approvalHistory := record.approvalHistory ++ [approval] }

/-- `activate` or `resume` of what is active by this approval already. -/
def confirmActive (record : StoredPlan) (approval : PlanApproval) (currentGeneration : UInt64)
    (clock : Op Int) : Op StoredPlan := do
  require (approval.revocationGeneration = currentGeneration) .stale
  let time ← clock
  liftStale (approval.validateAgainstAt host.env record.plan time)
  Prog.pure record

def activate (approval : PlanApproval) (currentGeneration : UInt64) : Op StoredPlan := do
  enter host
  require (safeId approval.planId) (.invalid "plan id")
  let key : Key := (approval.planId, approval.revision)
  checkCurrentRevision host key
  let found ← readAt host key
  match found with
  | none => Prog.fail .stale
  | some record =>
    if record.status = .active && record.approval = some approval then
      confirmActive host record approval currentGeneration (now host)
    else do
      require (record.status = .proposed &&
        approval.planDigest = record.plan.toPlanProposalInput.computePlanDigest host.env) .stale
      let time ← now host
      liftStale (record.status.canActivateAt host.env approval record.plan currentGeneration time)
      publish host key (some record) (record.approve approval)
      Prog.pure (record.approve approval)

/-- The approval that a status in force needs. -/
def checkLive (key : Key) (record : StoredPlan) (currentGeneration : UInt64) : Op Unit := do
  checkCurrentRevision host key
  match record.approval with
  | none => Prog.fail .stale
  | some approval => do
    require (approval.revocationGeneration = currentGeneration) .stale
    let time ← now host
    liftStale (approval.validateAgainstAt host.env record.plan time)

def transition (planId : String) (revision : UInt64) (expectedDigest : String)
    (currentGeneration : UInt64) (next : PlanStatus) : Op StoredPlan := do
  enter host
  require (safeId planId) (.invalid "plan id")
  let key : Key := (planId, revision)
  let found ← readAt host key
  match found with
  | none => Prog.fail .stale
  | some record => do
    require (record.plan.toPlanProposalInput.computePlanDigest host.env = expectedDigest &&
      next ≠ .active) .stale
    if requiresLiveApproval next then checkLive host key record currentGeneration else Prog.pure ()
    if record.status = next then Prog.pure record
    else do
      require (record.status.allowsTransition next) .stale
      publish host key (some record) { record with status := next }
      Prog.pure { record with status := next }

/-- The approval is new and later than the one it replaces. -/
def checkRenewal (record : StoredPlan) (approval : PlanApproval) : Op Unit :=
  match record.approval with
  | none => Prog.fail .stale
  | some previous =>
    match host.env.parseTime previous.approvedAt, host.env.parseTime approval.approvedAt with
    | some previousAt, some renewedAt =>
      require (!(record.approvalHistory.any (fun prior => prior.approvalId = approval.approvalId) ||
        renewedAt ≤ previousAt)) .stale
    | _, _ => Prog.fail .stale

/-- `resume` reads the clock; `resume_at` is given a time. -/
def resumeTime (given : Option Int) : Op Int :=
  match given with
  | some time => Prog.pure time
  | none => now host

def resume (approval : PlanApproval) (currentGeneration : UInt64) (given : Option Int) :
    Op StoredPlan := do
  enter host
  require (safeId approval.planId) (.invalid "plan id")
  let key : Key := (approval.planId, approval.revision)
  checkCurrentRevision host key
  let found ← readAt host key
  match found with
  | none => Prog.fail .stale
  | some record => do
    let time ← resumeTime host given
    if record.status = .active && record.approval = some approval then
      confirmActive host record approval currentGeneration (Prog.pure time)
    else do
      liftStale (record.status.canResumeAt host.env approval record.plan currentGeneration time)
      checkRenewal host record approval
      publish host key (some record) (record.approve approval)
      Prog.pure (record.approve approval)

end host

end Orkworksd.Coordinator
