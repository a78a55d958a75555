import Orkworksd.Taskmaster.Evaluate

/- The workflow refresh (`session_application.rs`,
   `refresh_workflow_recommendations_matching`) and the store's operations on the
   level of records.

   A store is the map of its records by id. The refresh evaluates every family,
   puts the proposals over the stored records, projects the parents of changed
   members again and hands the whole graph to the store, which takes it or refuses
   it as a whole; a refusal is only logged. The hashes the source passes along are
   those of the files it has just read; here the records themselves stand for
   them. -/
namespace Orkworksd.Taskmaster
open Lib

abbrev Records := TextMap Recommendation

/-- The records in the order of `list`. -/
def listing (records : Records) : List Recommendation := sortBy listedBefore (values records)

/-! ## The plan of a refresh -/

/-- What a refresh wants to store, and the ids it changes. -/
structure RefreshPlan where
  next : Records
  changed : List String

/-- The parent of a changed member, projected again. -/
def refreshedParent (size : List WorkflowObservationEvidence → Nat) (now : String) (next : Records)
    (parentId : String) : Option Recommendation := do
  let parent ← next[parentId]?
  if parent.status != .proposed then none
  else do
    let members ← parent.rollupMemberIds.mapM (fun memberId => next[memberId]?)
    return refreshRollupParentProjection size parent members now

/-- The loop over `changed_parent_ids`. -/
def refreshParents (size : List WorkflowObservationEvidence → Nat) (now : String)
    (plan : RefreshPlan) : List String → RefreshPlan
  | [] => plan
  | parentId :: rest =>
    match refreshedParent size now plan.next parentId with
    | none => refreshParents size now plan rest
    | some refreshed => refreshParents size now
        { next := plan.next.insert refreshed.id refreshed
          changed := plan.changed ++ [refreshed.id] } rest

/-- The proposals that differ from what is stored. -/
def changedProposals (records : Records) (proposals : List Recommendation) : List Recommendation :=
  proposals.filter (fun proposal => records[proposal.id]? != some proposal)

def putProposals (records : Records) (proposals : List Recommendation) : Records :=
  proposals.foldl (fun next proposal => next.insert proposal.id proposal) records

def refreshPlan (size : List WorkflowObservationEvidence → Nat) (now : String) (records : Records)
    (proposals : List Recommendation) : RefreshPlan :=
  refreshParents size now
    { next := putProposals records proposals
      changed := (changedProposals records proposals).map (·.id) }
    (sortedUnique ((changedProposals records proposals).filterMap (·.rolledUpBy)))

/-! ## The store on the level of records -/

/-- What a reading of the whole store checks: every record, then the graph. -/
def readRecords (digests : Digests) (records : Records) : Except StoreError Unit := do
  validateEach digests (values records)
  validateGraphRecords digests (values records)

/-- `verify_expected`: an expected record stands for the hash of its file. -/
def verifyRecords (records : Records) :
    List (String × Option Recommendation) → Except StoreError Unit
  | [] => reject (records.keys.any (fun id => !validId id))
      "recommendation ID is not a safe file name"
  | (id, expected) :: rest =>
    if !validId id then .error (.staleExpectedHash id)
    else if records[id]? != expected then .error (.staleExpectedHash id)
    else verifyRecords records rest

/-- What is stored under these ids, as `expected`. -/
def expectedRecords (records : Records) (ids : List String) :
    List (String × Option Recommendation) :=
  (sortedUnique ids).map (fun id => (id, records[id]?))

/-- `apply_recommendation_graph_transaction` on records: the graph is stored as a whole or
refused as a whole. On disk this is so when its ids are safe file names (`apply_refines`); a
graph with another id may be published and its rollback then be refused for ever. -/
def applyRecords (digests : Digests) (current : Records)
    (expected : List (String × Option Recommendation)) (records : List Recommendation) :
    Except StoreError Records := do
  readRecords digests current
  verifyRecords current expected
  reject ((recordsById records).size != records.length) "recommendation graph contains duplicate IDs"
  validateGraphRecords digests (values (recordsById records))
  checkKept (recordsById records) current.toList
  validateEach digests (values (recordsById records))
  return recordsById records

/-- The outcome of an operation whose refusal leaves the store as it was, as the calls on disk
do whose ids are safe (`perform_stands`). -/
def orElseKeep (records : Records) (result : Except StoreError Records) : Records :=
  match result with
  | .ok next => next
  | .error _ => records

/-- The plan of a refresh of these records. -/
def plannedRefresh (digests : Digests) (size : List WorkflowObservationEvidence → Nat)
    (context : EvaluationContext) (observations : List WorkflowObservation) (records : Records) :
    RefreshPlan :=
  refreshPlan size context.now records
    (evaluateWorkflowImprovements digests context observations (listing records))

/-- What a refresh leaves, or the refusal it only logs. -/
def refreshResult (digests : Digests) (size : List WorkflowObservationEvidence → Nat)
    (context : EvaluationContext) (observations : List WorkflowObservation) (records : Records) :
    Except StoreError Records := do
  readRecords digests records
  let plan := plannedRefresh digests size context observations records
  if plan.changed.isEmpty then return records
  else applyRecords digests records (expectedRecords records plan.changed) (values plan.next)

def refreshWorkflowRecommendations (digests : Digests)
    (size : List WorkflowObservationEvidence → Nat) (context : EvaluationContext)
    (observations : List WorkflowObservation) (records : Records) : Records :=
  orElseKeep records (refreshResult digests size context observations records)

/-- `put_current` on records. -/
def putResult (digests : Digests) (recommendation : Recommendation) (records : Records) :
    Except StoreError Records := do
  validateRecommendation digests recommendation
  return records.insert recommendation.id recommendation

/-- A single-record operation: read, change, validate and put back. -/
def updateResult (digests : Digests) (id : String)
    (change : Recommendation → Except StoreError Recommendation) (records : Records) :
    Except StoreError Records := do
  readRecords digests records
  if !validId id then return records
  else match records[id]? with
    | none => return records
    | some recommendation => do
      let next ← change recommendation
      putResult digests next records

/-- `cancel_execution` on records: a redacted assessment is superseded at once. -/
def cancelResult (digests : Digests) (id cancelledAt : String) (records : Records) :
    Except StoreError Records := do
  readRecords digests records
  if !validId id then return records
  else match records[id]? with
    | none => return records
    | some recommendation => do
      let next ← cancelExecutionChange cancelledAt recommendation
      let stored ← putResult digests next records
      if recommendation.redacted then putResult digests { next with status := .superseded } stored
      else return stored

/-- What `complete_accepted_checked` makes of the record, which it leaves as it is
when the request is repeated. -/
def completedOnce (id completedAt : String) (mutation : CompletionMutationRequest)
    (recommendation : Recommendation) : Except StoreError Recommendation := do
  let changed ← completeAcceptedCheckedChange id completedAt mutation recommendation
  return changed.getD recommendation

def recoverOrphansResult (digests : Digests) (live protectedIds : String → Bool)
    (recoveredAt : String) (records : Records) : Except StoreError Records := do
  validateEach digests (values records)
  let orphans := records.filter (fun id recommendation => orphaned live protectedIds id recommendation)
  let next := records.map (fun id recommendation =>
    if orphaned live protectedIds id recommendation then reproposed recommendation recoveredAt
    else recommendation)
  validateEach digests (values (orphans.map (fun _ recommendation =>
    reproposed recommendation recoveredAt)))
  if orphans.isEmpty then return records
  else do
    validateGraphRecords digests (values next)
    verifyRecords records (expectedRecords records orphans.keys)
    validateEach digests (values next)
    return next

end Orkworksd.Taskmaster
