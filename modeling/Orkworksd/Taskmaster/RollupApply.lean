import Orkworksd.Taskmaster.RollupClusters
import Orkworksd.Taskmaster.GraphTransaction

/- Applying accepted clusters to the store (`apply_rollup_clusters_locked` and
   `rollup_inputs_match_locked` in `session_application.rs`).

   The call reads the records, checks that the families the model saw are still
   there, and works out a new graph: every cluster gets its parent and gives its
   members to it, and every supplied parent that no cluster asks for again is
   superseded and gives its other members back. The new graph is written as one
   graph transaction, together with the records the caller wants to update.

   The source fills two maps as it walks the clusters and then the old parents, and
   drops them whenever it returns `false`. Here the records of one turn of a loop
   are a function of the records read (`clusterRecords`, `releasedRecords`), and
   `store` puts them into the maps. `size` is the length of a JSON text, as in the
   projection of a parent. -/
namespace Orkworksd.Taskmaster
open Lib

/-! ## The families are still the ones supplied -/

/-- The part of the workspace the call reads. -/
structure RollupWorkspace where
  path : String
  /-- `workflow_observations.instance_id()`. -/
  instanceId : Nat

/-- The parent a snapshot names, when the record still belongs to it. -/
def currentParent (current : List Recommendation) (snapshot : RollupFamilySnapshot)
    (recommendation : Recommendation) (expectedParentId : String) : Option Recommendation :=
  match findById current expectedParentId with
  | none => none
  | some parent =>
    if parent.status != .proposed || recommendation.status != .rolledUp
        || recommendation.rolledUpBy != some expectedParentId
        || sortedUnique parent.rollupMemberIds != snapshot.activeParentMemberIds then none
    else some parent

/-- The closure of `all` in `rollup_inputs_match_locked`. -/
def snapshotMatches (digests : Digests) (codec : RollupCodec) (current : List Recommendation)
    (snapshot : RollupFamilySnapshot) : Bool :=
  match findById current snapshot.recommendationId with
  | none => false
  | some recommendation =>
    match snapshot.activeParentId with
    | some expectedParentId =>
      match currentParent current snapshot recommendation expectedParentId with
      | none => false
      | some parent =>
        (familySnapshot digests codec
          { recommendation with status := .proposed, rolledUpBy := none } (some parent)).toOption
            == some snapshot
    | none =>
      if recommendation.status != .proposed || !recommendation.rollupMemberIds.isEmpty
          || recommendation.rolledUpBy.isSome then false
      else (familySnapshot digests codec recommendation none).toOption == some snapshot

def rollupInputsMatchLocked (env : Env) (codec : RollupCodec) (workspace : RollupWorkspace)
    (workspaceInstance : Nat) (suppliedSnapshots : List RollupFamilySnapshot) : StoreM Bool :=
  if workspace.instanceId != workspaceInstance then pure false
  else do
    match ← Prog.attempt (list env) with
    | .error _ => pure false
    | .ok current => pure (suppliedSnapshots.all (snapshotMatches env.digests codec current))

/-! ## The new graph -/

/-- `working` and `expected`: the records of the new graph and the hashes of the
files it replaces. -/
structure RollupGraph where
  working : TextMap Recommendation
  expected : TextMap (Option String)

/-- What the loops read. -/
structure RollupInputs where
  workspacePath : String
  now : String
  generation : Nat
  size : List WorkflowObservationEvidence → Nat
  suppliedSnapshots : List RollupFamilySnapshot
  clusters : List RollupCluster
  /-- The records read, with the caller's updates. -/
  current : List Recommendation
  currentHashes : TextMap String

namespace RollupGraph

/-- `add_expected`. -/
def expect (currentHashes : TextMap String) (graph : RollupGraph) (id : String) : RollupGraph :=
  if graph.expected.contains id then graph
  else { graph with expected := graph.expected.insert id currentHashes[id]? }

/-- `add_expected` and `working.insert`. -/
def store (currentHashes : TextMap String) (graph : RollupGraph) (record : Recommendation) :
    RollupGraph :=
  let graph := graph.expect currentHashes record.id
  { graph with working := graph.working.insert record.id record }

end RollupGraph

namespace RollupInputs

def assignedMemberIds (inputs : RollupInputs) : List String :=
  inputs.clusters.flatMap (·.memberRecommendationIds)

def suppliedMemberIds (inputs : RollupInputs) : List String :=
  inputs.suppliedSnapshots.map (·.recommendationId)

def suppliedParentIds (inputs : RollupInputs) : List String :=
  inputs.suppliedSnapshots.filterMap (·.activeParentId)

def retainedParentIds (digests : Digests) (inputs : RollupInputs) : List String :=
  inputs.clusters.map (fun cluster => stableRollupId digests cluster.memberRecommendationIds)

end RollupInputs

/-- The member belongs to a parent it was not supplied with. -/
def heldElsewhere (snapshots : List RollupFamilySnapshot) (member : Recommendation) : Bool :=
  member.status == .rolledUp && !snapshots.any (fun snapshot =>
    snapshot.recommendationId == member.id && snapshot.activeParentId == member.rolledUpBy)

/-- The other proposed parents that list one of the members. -/
def supersededParents (current : List Recommendation) (parentId : String)
    (memberIds : List String) : List Recommendation :=
  current.filter (fun item => item.status == .proposed && !item.rollupMemberIds.isEmpty
    && item.id != parentId && item.rollupMemberIds.any memberIds.contains)

/-- An existing record that cannot be the parent of these members. -/
def unusableParent (memberIds : List String) (parent : Recommendation) : Bool :=
  parent.rollupMemberIds.isEmpty || !activeParent parent.status
    || (parent.status == .executing && sortedUnique parent.rollupMemberIds != memberIds)

/-- The parent of a cluster, before its projection is refreshed. -/
def rollupParent (inputs : RollupInputs) (cluster : RollupCluster) (parentId : String)
    (existingParent : Option Recommendation) (firstMember : Recommendation)
    (members : List Recommendation) : Recommendation :=
  let executing := existingParent.any (fun existing => existing.status == .executing)
  let parent := existingParent.getD { firstMember with createdAt := inputs.now }
  { parent with
    id := parentId
    status := if executing then .executing else .proposed
    workspaceId := inputs.workspacePath
    chainId := parentId
    chainDepth := nextDepth ((members.map (·.chainDepth)).foldl max 0)
    title := cluster.title
    summary := cluster.summary
    reason := ["Bounded semantic rollup of " ++ toString members.length
      ++ " exact recommendation families; derived evidence and counts remain sidecar-owned."]
    repositoryEvidence := []
    knowledgeEvidence := []
    targetSessionId := if executing then parent.targetSessionId else none
    suggestedHarnessId := none
    suggestedModel := none
    suggestedWorkingDirectory := none
    suggestedPrompt := none
    requiresApproval := false
    dedupeKey := "rollup:v1:" ++ parentId
    expiresAt := none
    rollupMemberIds := sortedUnique cluster.memberRecommendationIds
    rollupMemberDedupeKeys := sortStrings (members.map (·.dedupeKey))
    rollupGeneration := some inputs.generation
    rolledUpBy := none }

def clusterParent (inputs : RollupInputs) (cluster : RollupCluster) (parentId : String)
    (existingParent : Option Recommendation) (firstMember : Recommendation)
    (members : List Recommendation) (supersedesRecommendationId : Option String) :
    Recommendation :=
  let parent := refreshRollupParentProjection inputs.size
    (rollupParent inputs cluster parentId existingParent firstMember members) members inputs.now
  { parent with
    workflowImprovement :=
      { parent.workflowImprovement with
        proposedImprovement := cluster.summary
        targetSurface := cluster.targetSurface
        expectedBenefit := firstMember.workflowImprovement.expectedBenefit
        supersedesRecommendationId := supersedesRecommendationId
        dismissalWatermark := none }
    -- an executing parent keeps the change it was accepted with
    proposedChange :=
      if existingParent.all (fun existing => existing.status == .proposed) then
        some cluster.proposedChange
      else parent.proposedChange }

/-- The member as its cluster leaves it. -/
def rolledUpUnder (parentId : String) (member : Recommendation) : Recommendation :=
  { member with status := .rolledUp, rolledUpBy := some parentId }

/-- One turn of the loop over the clusters: the parent and its members, or `none`
where the source returns `false`. -/
def clusterRecords (digests : Digests) (inputs : RollupInputs) (cluster : RollupCluster) :
    Option (Recommendation × List Recommendation) :=
  let memberIds := sortedUnique cluster.memberRecommendationIds
  match memberIds.findSome? (findById inputs.current) with
  | none => none
  | some firstMember =>
    let members := memberIds.filterMap (findById inputs.current)
    let parentId := stableRollupId digests cluster.memberRecommendationIds
    let existingParent := findById inputs.current parentId
    let superseded := supersededParents inputs.current parentId memberIds
    if members.length != memberIds.length then none
    else if members.any (heldElsewhere inputs.suppliedSnapshots) then none
    else if existingParent.any (unusableParent memberIds) then none
    else if 1 < superseded.length then none
    else
      let supersedes := (existingParent.bind
        (·.workflowImprovement.supersedesRecommendationId)).or (superseded.head?.map (·.id))
      some (clusterParent inputs cluster parentId existingParent firstMember members supersedes,
        members.map (rolledUpUnder parentId))

def applyCluster (digests : Digests) (inputs : RollupInputs) (graph : RollupGraph)
    (cluster : RollupCluster) : Option RollupGraph := do
  let (parent, members) ← clusterRecords digests inputs cluster
  let linked := parent.rollupMemberIds
    ++ parent.workflowImprovement.supersedesRecommendationId.toList
  let graph := linked.foldl (RollupGraph.expect inputs.currentHashes) graph
  return (parent :: members).foldl (RollupGraph.store inputs.currentHashes) graph

/-- The member as its superseded parent leaves it, when it was that parent's. -/
def releasedFrom (oldParent oldMember : Recommendation) : Option Recommendation :=
  if oldMember.rolledUpBy == some oldParent.id then
    some { oldMember with status := .proposed, rolledUpBy := none }
  else none

/-- One turn of the loop over the supplied parents that no cluster keeps. -/
def releasedRecords (inputs : RollupInputs) (oldParent : Recommendation) :
    Option (List Recommendation) := do
  if oldParent.status != .proposed
      || !oldParent.rollupMemberIds.all inputs.suppliedMemberIds.contains then none
  else
    let unassigned := oldParent.rollupMemberIds.filter (fun id =>
      !inputs.assignedMemberIds.contains id)
    let oldMembers ← unassigned.mapM (findById inputs.current)
    return { oldParent with status := .superseded, updatedAt := inputs.now }
      :: oldMembers.filterMap (releasedFrom oldParent)

def releaseParent (inputs : RollupInputs) (graph : RollupGraph) (oldParent : Recommendation) :
    Option RollupGraph := do
  let records ← releasedRecords inputs oldParent
  return records.foldl (RollupGraph.store inputs.currentHashes) graph

/-- The supplied parents that no cluster keeps. -/
def oldParents (digests : Digests) (inputs : RollupInputs) : List Recommendation :=
  inputs.current.filter (fun parent => inputs.suppliedParentIds.contains parent.id
    && !(inputs.retainedParentIds digests).contains parent.id)

/-- The graph of the two loops, or `none` where the source returns `false`. -/
def rollupGraph (digests : Digests) (inputs : RollupInputs) (legacyUpdates : List Recommendation) :
    Option RollupGraph := do
  let graph : RollupGraph := ⟨recordsById inputs.current, ∅⟩
  let graph := (legacyUpdates.map (·.id)).foldl (RollupGraph.expect inputs.currentHashes) graph
  let graph ← inputs.clusters.foldlM (applyCluster digests inputs) graph
  (oldParents digests inputs).foldlM (releaseParent inputs) graph

/-! ## The call -/

/-- The records of `list_with_hashes` from those of the directory. -/
def recordsWithHashes (env : Env) (files : Files) :
    Except StoreError (List Recommendation × TextMap String) := do
  let stored ← readAllStored env files
  validateGraphRecords env.digests (stored.map Prod.fst)
  let sorted := sortBy (fun left right => listedBefore left.1 right.1) stored
  return (sorted.map Prod.fst, sorted.foldl (fun hashes record =>
    hashes.insert record.1.id (env.digests.sha256 record.2)) ∅)

def listWithHashes (env : Env) : StoreM (List Recommendation × TextMap String) := do
  recoverTransactions env
  Prog.check (fun d => recordsWithHashes env d.files)

/-- `projected`: the records read, with the caller's updates put over them. -/
def projected (current legacyUpdates : List Recommendation) : List Recommendation :=
  values (legacyUpdates.foldl (fun map update => map.insert update.id update)
    (recordsById current))

/-- The arguments of the call besides the store. -/
structure RollupRequest where
  workspace : RollupWorkspace
  workspaceInstance : Nat
  suppliedSnapshots : List RollupFamilySnapshot
  clusters : List RollupCluster
  generation : Nat
  legacyUpdates : List Recommendation
  now : String

def RollupRequest.inputs (request : RollupRequest)
    (size : List WorkflowObservationEvidence → Nat)
    (listed : List Recommendation × TextMap String) : RollupInputs where
  workspacePath := request.workspace.path
  now := request.now
  generation := request.generation
  size := size
  suppliedSnapshots := request.suppliedSnapshots
  clusters := request.clusters
  current := projected listed.1 request.legacyUpdates
  currentHashes := listed.2

def applyRollupClustersLocked (env : Env) (codec : RollupCodec)
    (size : List WorkflowObservationEvidence → Nat) (uuid : String) (request : RollupRequest) :
    StoreM Bool := do
  let matching ← rollupInputsMatchLocked env codec request.workspace request.workspaceInstance
    request.suppliedSnapshots
  if !matching then pure false
  else do
    match ← Prog.attempt (listWithHashes env) with
    | .error _ => pure false
    | .ok listed =>
      match rollupGraph env.digests (request.inputs size listed) request.legacyUpdates with
      | none => pure false
      | some graph =>
        if graph.expected.isEmpty then pure true
        else do
          let applied ← Prog.attempt (applyRecommendationGraphTransaction env uuid graph.expected
            (values graph.working))
          pure applied.isOk

end Orkworksd.Taskmaster
