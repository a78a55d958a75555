import Mathlib.Data.Finset.Union
import Mathlib.Data.Finset.Card
import Orkworksd.Taskmaster.Transaction

/- The recommendation store's operations (`taskmaster/store.rs`) over a disk.

   Every operation first recovers what an earlier one left. The single-record
   operations (`dismiss`, `begin_execution`, `complete_accepted` and the others)
   read one record, change it and put it back without reading its neighbours; the
   others plan a set of replacements and commit it as a transaction. The changes
   themselves are pure functions of the record. -/
namespace Orkworksd.Taskmaster
open Lib List

/-! ## Reading and writing one record -/

/-- The temporary file of `put_current`: `path.with_extension("json.tmp")`. -/
def temporaryFilename (id : String) : String :=
  if id.isEmpty then ".json.json.tmp" else recommendationFilename id ++ ".tmp"

/-- Write and sync the temporary file, then rename it over the record's. -/
def replaceFile (temporary target : String) (bytes : Bytes) : StoreM Unit := do
  Prog.during
    (fun d => bytes.inits.map (fun written => { d with files := d.files.insert temporary written }))
    (fun d => { d with files := d.files.insert temporary bytes })
  Prog.step (fun d => { d with files := (d.files.erase temporary).insert target bytes })

def putCurrent (env : Env) (recommendation : Recommendation) : StoreM Unit := do
  recoverTransactions env
  Prog.check (fun _ => validateRecommendation env.digests recommendation)
  replaceFile (temporaryFilename recommendation.id) (recommendationFilename recommendation.id)
    (env.serde.encode recommendation)

def readId (env : Env) (id : String) (files : Files) : Except StoreError (Option Recommendation) :=
  match files[recommendationFilename id]? with
  | none => .ok none
  | some bytes => (readRecord env bytes).map some

def getCurrent (env : Env) (id : String) : StoreM (Option Recommendation) := do
  recoverTransactions env
  Prog.check (fun d => validateGraph env d.files)
  if !validId id then pure none
  else Prog.check (fun d => readId env id d.files)

/-! ## Opening and listing -/

/-- The id of a rollup parent stored under its plain name by an earlier version. -/
def legacyRollupId (name : String) : Option String :=
  if "rollup:".toList.isPrefixOf name.toList
      && ".json".toList.isSuffixOf (name.toList.drop 7) then
    some (String.ofList (name.toList.take (name.toList.length - 5)))
  else none

/-- The loop body of `migrate_legacy_rollup_filenames`. -/
def migrateLegacyFile (name : String) : StoreM Unit :=
  match legacyRollupId name with
  | none => pure ()
  | some logicalId =>
    if !validId logicalId then pure ()
    else do
      let files ← Prog.look (·.files)
      if files.contains (recommendationFilename logicalId) then
        Prog.fail (.recovery ("both legacy and encoded filenames exist for " ++ logicalId))
      else match files[name]? with
        | none => Prog.fail missingFile
        | some bytes => Prog.step (fun d =>
            { d with files := (d.files.erase name).insert (recommendationFilename logicalId) bytes })

def migrateLegacyRollupFilenames : StoreM Unit := do
  let files ← Prog.look (·.files)
  Prog.forEach migrateLegacyFile files.keys

/-- `RecommendationStore::open` on an existing directory. -/
def openStore (env : Env) : StoreM Unit := do
  migrateLegacyRollupFilenames
  recoverTransactions env
  Prog.check (fun d => validateGraph env d.files)

/-- The order of `list`: by creation time, then by id. -/
def listedBefore (left right : Recommendation) : Bool :=
  left.createdAt < right.createdAt || (left.createdAt == right.createdAt && left.id ≤ right.id)

/-- The records of `list` from those of the directory. -/
def listRecords (env : Env) (files : Files) : Except StoreError (List Recommendation) := do
  let recommendations ← readAll env files
  validateGraphRecords env.digests recommendations
  return sortBy listedBefore recommendations

def list (env : Env) : StoreM (List Recommendation) := do
  recoverTransactions env
  Prog.check (fun d => listRecords env d.files)

/-! ## Changes to one record -/

def CompletionPacket.withoutCapability (packet : CompletionPacket) : CompletionPacket :=
  { packet with approval := none, completionIdempotencyKey := none }

/-- `assessment_access::ensure_mutable`. -/
def ensureMutable (recommendation : Recommendation) : Except StoreError Unit :=
  if recommendation.redacted then .error .invalidTransition else .ok ()

/-- A redacted assessment that was already delivered may still be recorded. -/
def ensureMutableUnless (delivered : Bool) (recommendation : Recommendation) :
    Except StoreError Unit :=
  if delivered then .ok () else ensureMutable recommendation

/-- `if condition { return Err(StoreError::InvalidTransition) }`. -/
def forbid (condition : Bool) : Except StoreError Unit :=
  if condition then .error .invalidTransition else .ok ()

theorem forbid_ok {condition : Bool} : forbid condition = .ok () ↔ condition = false := by
  cases condition <;> simp [forbid]

def dismissalWatermark (recommendation : Recommendation) (dismissedAt : String)
    (reason : Option String) : DismissalWatermark where
  dismissedAt := dismissedAt
  dismissedThroughSequence := (recommendation.evidence.map (·.sequence)).foldl max 0
  observationIds := recommendation.evidence.map (·.observationId)
  qualifyingCount := recommendation.workflowImprovement.recurrenceCount
  highestImpact := recommendation.priority
  affectedSessionIds := recommendation.workflowImprovement.affectedSessionIds
  reason := reason

def dismissedRecord (recommendation : Recommendation) (dismissedAt : String)
    (reason : Option String) : Recommendation :=
  { recommendation with
    status := .dismissed
    updatedAt := dismissedAt
    workflowImprovement :=
      { recommendation.workflowImprovement with
        dismissalWatermark := some (dismissalWatermark recommendation dismissedAt reason) }
    completionPacket := recommendation.completionPacket.map (·.withoutCapability) }

/-- What `dismiss` makes of the record it reads. -/
def dismissChange (dismissedAt : String) (reason : Option String)
    (recommendation : Recommendation) : Except StoreError Recommendation := do
  ensureMutable recommendation
  forbid (!(recommendation.recommendationType == .improveWorkflow
      || recommendation.recommendationType == .cleanup)
    || !(recommendation.status == .proposed || recommendation.status == .executing))
  return dismissedRecord recommendation dismissedAt reason

/-- The record is an `improve_workflow` one in the status an operation starts from. -/
def startsFrom (recommendation : Recommendation) (status : RecommendationStatus) : Bool :=
  recommendation.recommendationType == .improveWorkflow && recommendation.status == status

theorem startsFrom_status {recommendation : Recommendation} {status : RecommendationStatus}
    (h : (!startsFrom recommendation status) = false) : recommendation.status = status := by
  simp only [startsFrom, Bool.not_eq_false', Bool.and_eq_true, beq_iff_eq] at h
  exact h.2

def beginExecutionChange (targetSessionId startedAt : String) (recommendation : Recommendation) :
    Except StoreError Recommendation := do
  ensureMutable recommendation
  forbid (!startsFrom recommendation .proposed)
  return { recommendation with
    status := .executing, targetSessionId := some targetSessionId, updatedAt := startedAt }

def CompletionPacket.matchesRequest (packet : CompletionPacket)
    (mutation : CompletionMutationRequest) : Bool :=
  packet.revision == mutation.packetRevision
    && packet.evidenceFingerprint == mutation.evidenceFingerprint

def CompletionPacket.approved (digests : Digests) (packet : CompletionPacket)
    (startedAt approver : String) (mutation : CompletionMutationRequest) : CompletionPacket :=
  { packet with
    approval := some
      { approvedAt := startedAt
        approver := approver
        revision := packet.revision
        evidenceFingerprint := packet.evidenceFingerprint
        actionFingerprint := packet.actionFingerprint digests
        idempotencyKey := mutation.idempotencyKey }
    completionIdempotencyKey := none }

/-- What `begin_execution_checked` makes of the record it reads. -/
def beginExecutionCheckedChange (digests : Digests) (id targetSessionId startedAt : String)
    (mutation : CompletionMutationRequest) (approver : String) (recommendation : Recommendation) :
    Except StoreError Recommendation := do
  ensureMutable recommendation
  forbid (!startsFrom recommendation .proposed)
  match recommendation.completionPacket with
  | none => .error .invalidTransition
  | some packet =>
    if !packet.matchesRequest mutation then .error (.stalePacket id)
    else .ok { recommendation with
      status := .executing
      targetSessionId := some targetSessionId
      updatedAt := startedAt
      completionPacket := some (packet.approved digests startedAt approver mutation) }

def completeExecutionChange (completedAt : String) (recommendation : Recommendation) :
    Except StoreError Recommendation := do
  forbid (!startsFrom recommendation .executing)
  return { recommendation with status := .accepted, updatedAt := completedAt }

def completeAcceptedChange (completedAt : String) (recommendation : Recommendation) :
    Except StoreError Recommendation := do
  let delivered := recommendation.redacted && recommendation.status == .accepted
    && recommendation.targetSessionId.isSome
  ensureMutableUnless delivered recommendation
  forbid (!startsFrom recommendation .accepted)
  return { recommendation with status := .completed, updatedAt := completedAt }

/-- What `complete_accepted_checked` makes of the record it reads; `none` is a
repeated request, which writes nothing. -/
def completeAcceptedCheckedChange (id completedAt : String) (mutation : CompletionMutationRequest)
    (recommendation : Recommendation) : Except StoreError (Option Recommendation) := do
  let delivered := recommendation.redacted
    && (recommendation.status == .accepted || recommendation.status == .completed)
    && recommendation.targetSessionId.isSome
  ensureMutableUnless delivered recommendation
  match recommendation.completionPacket with
  | none => .error .invalidTransition
  | some packet =>
    if !packet.matchesRequest mutation then .error (.stalePacket id)
    else if recommendation.status == .completed then
      if packet.completionIdempotencyKey == some mutation.idempotencyKey then .ok none
      else .error (.stalePacket id)
    else if !packet.approval.any (·.idempotencyKey == mutation.idempotencyKey) then
      .error (.stalePacket id)
    else if !startsFrom recommendation .accepted || packet.approval.isNone then
      .error .invalidTransition
    else .ok (some { recommendation with
      status := .completed
      updatedAt := completedAt
      completionPacket := some
        { packet with completionIdempotencyKey := some mutation.idempotencyKey } })

/-- The record proposed again, for a new approval. -/
def reproposed (recommendation : Recommendation) (updatedAt : String) : Recommendation :=
  { recommendation with
    status := .proposed
    targetSessionId := none
    completionPacket := recommendation.completionPacket.map (·.withoutCapability)
    updatedAt := updatedAt }

def cancelExecutionChange (cancelledAt : String) (recommendation : Recommendation) :
    Except StoreError Recommendation := do
  forbid (!startsFrom recommendation .executing)
  return reproposed recommendation cancelledAt

/-! ## Operations on one record -/

/-- Read a record, change it and put it back. -/
def updateRecord (env : Env) (id : String)
    (change : Recommendation → Except StoreError Recommendation) :
    StoreM (Option Recommendation) := do
  let current ← getCurrent env id
  match current with
  | none => pure none
  | some recommendation => do
    let next ← Prog.check (fun _ => change recommendation)
    putCurrent env next
    return some next

def dismiss (env : Env) (id dismissedAt : String) (reason : Option String) :
    StoreM (Option Recommendation) :=
  updateRecord env id (dismissChange dismissedAt reason)

def beginExecution (env : Env) (id targetSessionId startedAt : String) :
    StoreM (Option Recommendation) :=
  updateRecord env id (beginExecutionChange targetSessionId startedAt)

def beginExecutionChecked (env : Env) (id targetSessionId startedAt : String)
    (mutation : CompletionMutationRequest) (approver : String) :
    StoreM (Option Recommendation) := do
  Prog.check (fun _ => asGraphInvariant mutation.validate)
  updateRecord env id
    (beginExecutionCheckedChange env.digests id targetSessionId startedAt mutation approver)

def completeExecution (env : Env) (id completedAt : String) : StoreM (Option Recommendation) :=
  updateRecord env id (completeExecutionChange completedAt)

def completeAccepted (env : Env) (id completedAt : String) : StoreM (Option Recommendation) :=
  updateRecord env id (completeAcceptedChange completedAt)

def completeAcceptedChecked (env : Env) (id completedAt : String)
    (mutation : CompletionMutationRequest) : StoreM (Option Recommendation) := do
  Prog.check (fun _ => asGraphInvariant mutation.validate)
  let current ← getCurrent env id
  match current with
  | none => pure none
  | some recommendation => do
    let changed ← Prog.check (fun _ =>
      completeAcceptedCheckedChange id completedAt mutation recommendation)
    match changed with
    | none => pure (some recommendation)
    | some next => do
      putCurrent env next
      return some next

/-- The end of `cancel_execution`: a redacted assessment is superseded at once. -/
def supersedeIfRedacted (env : Env) (redacted : Bool) (next : Recommendation) :
    StoreM (Option Recommendation) :=
  if redacted then do
    let superseded := { next with status := .superseded }
    putCurrent env superseded
    return some superseded
  else pure (some next)

def cancelExecution (env : Env) (id cancelledAt : String) : StoreM (Option Recommendation) := do
  let current ← getCurrent env id
  match current with
  | none => pure none
  | some recommendation => do
    let next ← Prog.check (fun _ => cancelExecutionChange cancelledAt recommendation)
    putCurrent env next
    supersedeIfRedacted env recommendation.redacted next

/-! ## Operations on the graph -/

abbrev Stored := TextMap (Recommendation × Bytes)

def readAllStoredById (env : Env) (files : Files) : Except StoreError Stored :=
  (readAllStored env files).map (fun records =>
    records.foldl (fun stored record => stored.insert record.1.id record) ∅)

/-- The values of a map in key order. -/
def values {β : Type} (map : TextMap β) : List β := map.toList.map Prod.snd

/-- The hashes of stored records, as `expected`. -/
def expectedHashes (env : Env) (stored : Stored) : TextMap (Option String) :=
  stored.map (fun _ record => some (env.digests.sha256 record.2))

/-- The packet that replaces `old`: its lineage is extended and it carries no
approval. -/
def CompletionPacket.succeeding (replacement old : CompletionPacket) (updatedAt : String) :
    CompletionPacket :=
  { replacement with
    supersedesPacketId := some old.packetId
    lineage := old.lineage ++
      [{ packetId := old.packetId
         revision := old.revision
         evidenceFingerprint := old.evidenceFingerprint
         supersededAt := updatedAt }]
    approval := none
    completionIdempotencyKey := none }

/-- `u64::saturating_add(1)`. -/
def saturatingSucc (revision : Nat) : Nat := min (revision + 1) (2 ^ 64 - 1)

/-- What `replace_completion_packet` makes of the record it reads. -/
def replacePacketChange (id : String) (expectedRevision : Nat) (replacement : CompletionPacket)
    (updatedAt : String) (current : Recommendation) : Except StoreError Recommendation := do
  ensureMutable current
  forbid (current.recommendationType != .improveWorkflow
    || !(current.status == .proposed || current.status == .executing
      || current.status == .accepted))
  match current.completionPacket with
  | none => .error .invalidTransition
  | some old =>
    if old.revision != expectedRevision || replacement.revision != saturatingSucc old.revision
        || replacement.packetId == old.packetId then
      .error (.stalePacket id)
    else .ok { current with
      status := .proposed
      targetSessionId := none
      updatedAt := updatedAt
      completionPacket := some (replacement.succeeding old updatedAt) }

theorem replacePacketChange_id {id updatedAt : String} {expectedRevision : Nat}
    {replacement : CompletionPacket} {current next : Recommendation}
    (h : replacePacketChange id expectedRevision replacement updatedAt current = .ok next) :
    next.id = current.id := by
  obtain ⟨-, h⟩ := seq_eq_ok.mp h
  obtain ⟨-, h⟩ := seq_eq_ok.mp h
  split at h
  · cases h
  · split at h
    · cases h
    · cases h
      rfl

/-- The transaction `replace_completion_packet` plans; `none` when there is no such
record. -/
def replacePacketPlan (env : Env) (id : String) (expectedRevision : Nat)
    (replacement : CompletionPacket) (updatedAt : String) (files : Files) :
    Except StoreError (Option (Recommendation × Bytes)) := do
  let stored ← readAllStoredById env files
  match stored[id]? with
  | none => .ok none
  | some (current, bytes) => do
    let next ← replacePacketChange id expectedRevision replacement updatedAt current
    validateRecommendation env.digests next
    validateGraphRecords env.digests
      (values ((stored.map (fun _ record => record.1)).insert id next))
    return some (next, bytes)

def replaceCompletionPacket (env : Env) (uuid id : String) (expectedRevision : Nat)
    (replacement : CompletionPacket) (updatedAt : String) : StoreM (Option Recommendation) := do
  recoverTransactions env
  let planned ← Prog.check (fun d =>
    replacePacketPlan env id expectedRevision replacement updatedAt d.files)
  match planned with
  | none => pure none
  | some (next, bytes) => do
    commitReplacements env uuid
      ((∅ : TextMap (Option String)).insert id (some (env.digests.sha256 bytes)))
      ((∅ : TextMap Replacement).insert id ⟨some bytes, some (env.serde.encode next)⟩)
    return some next

/-- The record is handed to a session that is gone. -/
def orphaned (liveSessionIds protectedRecommendationIds : String → Bool) (id : String)
    (recommendation : Recommendation) : Bool :=
  match recommendation.targetSessionId with
  | none => false
  | some targetSessionId =>
    (recommendation.status == .executing || recommendation.status == .accepted)
      && !liveSessionIds targetSessionId && !protectedRecommendationIds id

/-- Every record passes `validate_recommendation`; the first failure is returned. -/
def validateEach (digests : Digests) : List Recommendation → Except StoreError Unit
  | [] => .ok ()
  | recommendation :: rest => do
    validateRecommendation digests recommendation
    validateEach digests rest

/-- The orphans `recover_orphaned_executions` finds and the records it proposes
again. -/
def orphanPlan (env : Env) (live protectedIds : String → Bool) (recoveredAt : String)
    (files : Files) : Except StoreError Stored := do
  let stored ← readAllStoredById env files
  let orphans := stored.filter (fun id record => orphaned live protectedIds id record.1)
  validateEach env.digests (values (orphans.map (fun _ record => reproposed record.1 recoveredAt)))
  let preview := stored.map (fun id record =>
    if orphaned live protectedIds id record.1 then reproposed record.1 recoveredAt else record.1)
  if orphans.isEmpty then return orphans
  else do
    validateGraphRecords env.digests (values preview)
    return orphans

def recoverOrphanedExecutions (env : Env) (uuid : String) (live protectedIds : String → Bool)
    (recoveredAt : String) : StoreM (List String) := do
  recoverTransactions env
  let orphans ← Prog.check (fun d => orphanPlan env live protectedIds recoveredAt d.files)
  if orphans.isEmpty then pure []
  else do
    commitReplacements env uuid (expectedHashes env orphans)
      (orphans.map (fun _ record =>
        ⟨some record.2, some (env.serde.encode (reproposed record.1 recoveredAt))⟩))
    return orphans.keys

/-! ### Deletion -/

/-- The first loop of a pass of `deletion_graph_ids`: parents and members of what
is deleted. -/
def relatedIds (recommendations : List Recommendation) (id : String) : Finset String :=
  match findById recommendations id with
  | none => ∅
  | some recommendation =>
    (recommendation.rolledUpBy.toList ++ recommendation.rollupMemberIds).toFinset

/-- The second loop: a parent that lists a deleted member. -/
def addListing (ids : Finset String) (recommendation : Recommendation) : Finset String :=
  if recommendation.rollupMemberIds.any (fun memberId => memberId ∈ ids) then
    insert recommendation.id ids
  else ids

def deletionPass (recommendations : List Recommendation) (ids : Finset String) : Finset String :=
  recommendations.foldl addListing (ids ∪ ids.biUnion (relatedIds recommendations))

def namedIds (recommendations : List Recommendation) : Finset String :=
  (recommendations.flatMap (fun recommendation =>
    recommendation.id :: recommendation.rolledUpBy.toList
      ++ recommendation.rollupMemberIds)).toFinset

variable (recommendations : List Recommendation) (ids : Finset String)

theorem subset_foldl_addListing : ids ⊆ recommendations.foldl addListing ids := by
  induction recommendations generalizing ids with
  | nil => exact Finset.Subset.refl _
  | cons recommendation rest ih =>
    refine Finset.Subset.trans ?_ (ih _)
    unfold addListing
    split
    · exact Finset.subset_insert _ _
    · exact Finset.Subset.refl _

theorem subset_deletionPass : ids ⊆ deletionPass recommendations ids :=
  Finset.Subset.trans Finset.subset_union_left (subset_foldl_addListing _ _)

theorem foldl_addListing_subset {recommendations : List Recommendation} {ids bound : Finset String}
    (hids : ids ⊆ bound) (hrecords : ∀ r ∈ recommendations, r.id ∈ bound) :
    recommendations.foldl addListing ids ⊆ bound := by
  induction recommendations generalizing ids with
  | nil => exact hids
  | cons recommendation rest ih =>
    refine ih ?_ (fun r hr => hrecords r (mem_cons_of_mem _ hr))
    unfold addListing
    split
    · exact Finset.insert_subset (hrecords _ mem_cons_self) hids
    · exact hids

theorem deletionPass_subset :
    deletionPass recommendations ids ⊆ ids ∪ namedIds recommendations := by
  have hnamed : ∀ r ∈ recommendations, ∀ id ∈ r.id :: r.rolledUpBy.toList ++ r.rollupMemberIds,
      id ∈ ids ∪ namedIds recommendations := by
    intro r hr id hid
    refine Finset.mem_union_right _ ?_
    rw [namedIds, mem_toFinset]
    exact mem_flatMap.mpr ⟨r, hr, hid⟩
  refine foldl_addListing_subset ?_ (fun r hr => hnamed r hr _ (by simp))
  refine Finset.union_subset Finset.subset_union_left ?_
  intro id hid
  obtain ⟨source, -, hid⟩ := Finset.mem_biUnion.mp hid
  unfold relatedIds at hid
  split at hid
  · simp at hid
  · rename_i r hr
    rw [mem_toFinset] at hid
    refine hnamed r (mem_of_find?_eq_some hr) id ?_
    simpa using Or.inr hid

/-- The `while changed` loop of `deletion_graph_ids`. It ends because every pass
that changes something adds an id that a record names. -/
def deletionGraphIds (recommendations : List Recommendation) (ids : Finset String) :
    Finset String :=
  if deletionPass recommendations ids = ids then ids
  else deletionGraphIds recommendations (deletionPass recommendations ids)
termination_by (namedIds recommendations \ ids).card
decreasing_by
  rename_i hchanged
  refine Finset.card_lt_card ?_
  have hgrows := subset_deletionPass recommendations ids
  refine ⟨Finset.sdiff_subset_sdiff (Finset.Subset.refl _) hgrows, ?_⟩
  intro hback
  refine hchanged (Finset.Subset.antisymm ?_ hgrows)
  intro id hid
  rcases Finset.mem_union.mp (deletionPass_subset recommendations ids hid) with hin | hnamed
  · exact hin
  · by_contra hnot
    exact (Finset.mem_sdiff.mp (hback (Finset.mem_sdiff.mpr ⟨hnamed, hnot⟩))).2 hid

def deleteGraphRecords (env : Env) (uuid : String) (recommendations : List Recommendation)
    (ids : Finset String) : StoreM Unit := do
  let stored ← Prog.check (fun d => readAllStoredById env d.files)
  let deleted := stored.filter (fun id _ => id ∈ deletionGraphIds recommendations ids)
  commitReplacements env uuid (expectedHashes env deleted)
    (deleted.map (fun _ record => ⟨some record.2, none⟩))

/-- The shape of `delete_referencing_session` and `scrub_orphans`. -/
def deleteSelected (env : Env) (uuid : String) (select : Recommendation → Bool) : StoreM Unit := do
  recoverTransactions env
  let recommendations ← Prog.check (fun d => do
    let recommendations ← readAll env d.files
    validateGraphRecords env.digests recommendations
    return recommendations)
  deleteGraphRecords env uuid recommendations
    ((recommendations.filter select).map (·.id)).toFinset

def watermarkSessions (recommendation : Recommendation) : List String :=
  (recommendation.workflowImprovement.dismissalWatermark.map (·.affectedSessionIds)).getD []

def referencedSessions (recommendation : Recommendation) : List String :=
  recommendation.sourceSessionIds ++ recommendation.workflowImprovement.affectedSessionIds
    ++ watermarkSessions recommendation ++ recommendation.evidence.map (·.sessionId)

def deleteReferencingSession (env : Env) (uuid sessionId : String) : StoreM Unit :=
  deleteSelected env uuid (fun recommendation => (referencedSessions recommendation).contains sessionId)

def scrubOrphans (env : Env) (uuid : String) (retainedSessionIds : String → Bool) : StoreM Unit :=
  deleteSelected env uuid (fun recommendation =>
    (referencedSessions recommendation).any (fun id => !retainedSessionIds id))

/-! ### Applying an evaluated graph -/

/-- The statuses an evaluated graph may not change. -/
def finalStatus : RecommendationStatus → Bool
  | .accepted | .completed | .dismissed | .superseded | .expired | .failed => true
  | _ => false

/-- Every stored record is kept, and one with a final status is unchanged. -/
def checkKept (next : TextMap Recommendation) : List (String × Recommendation) → Except StoreError Unit
  | [] => .ok ()
  | (id, old) :: rest =>
    if !next.contains id then
      .error (.graphInvariant "rollup graph transaction cannot remove an existing record")
    else if finalStatus old.status && next[id]? != some old then .error .invalidTransition
    else checkKept next rest

theorem checkKept_iff {next : TextMap Recommendation} {l : List (String × Recommendation)} :
    checkKept next l = .ok () ↔ ∀ item ∈ l, (∃ r, next[item.1]? = some r) ∧
      (finalStatus item.2.status = true → next[item.1]? = some item.2) := by
  induction l with
  | nil => simp [checkKept]
  | cons item l ih =>
    obtain ⟨id, old⟩ := item
    rw [forall_mem_cons, ← ih]
    have hcontains : next.contains id = (next[id]?).isSome :=
      Std.ExtTreeMap.contains_eq_isSome_getElem?
    conv_lhs => unfold checkKept
    rw [hcontains]
    cases hget : next[id]? with
    | none => simp
    | some r =>
      by_cases hfinal : finalStatus old.status = true
      · by_cases heq : r = old
        · simp [heq]
        · simp [hfinal, heq]
      · simp [hfinal]

def recordsById (records : List Recommendation) : TextMap Recommendation :=
  records.foldl (fun next record => next.insert record.id record) ∅

/-- The replacement of every record whose file changes. -/
def graphReplacements (env : Env) (stored : Stored) (next : TextMap Recommendation) :
    TextMap Replacement :=
  next.filterMap (fun id record =>
    let replacement : Replacement :=
      ⟨(stored[id]?).map Prod.snd, some (env.serde.encode record)⟩
    if replacement.old == replacement.new then none else some replacement)

/-- `apply_recommendation_graph_transaction` up to the commit. -/
def graphPlan (env : Env) (expected : TextMap (Option String)) (records : List Recommendation)
    (files : Files) : Except StoreError (TextMap Replacement) := do
  validateGraph env files
  let stored ← readAllStoredById env files
  verifyExpected env files (values (stored.map (fun _ record => record.1))) expected.toList
  let next := recordsById records
  reject (next.size != records.length) "recommendation graph contains duplicate IDs"
  validateGraphRecords env.digests (values next)
  checkKept next ((stored.map (fun _ record => record.1)).toList)
  return graphReplacements env stored next

def applyRecommendationGraphTransaction (env : Env) (uuid : String)
    (expected : TextMap (Option String)) (records : List Recommendation) : StoreM Unit := do
  recoverTransactions env
  let replacements ← Prog.check (fun d => graphPlan env expected records d.files)
  commitReplacements env uuid expected replacements

end Orkworksd.Taskmaster
