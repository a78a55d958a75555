import Orkworksd.Taskmaster.CardRun

/- Runs of the recommendation store's operations on the level of records: every
   operation of `taskmaster/store.rs` that may change a record, with any arguments.

   `put` and `apply_recommendation_graph_transaction` write records their callers made;
   the others change a stored record or remove it. `Turns` says what one operation can
   make of the record of one id, and `result_turns` that it is all. -/
namespace Orkworksd.Taskmaster
open Lib TextMap

inductive StoreOperation where
  | put (recommendation : Recommendation)
  | applyGraph (expected : List (String × Option Recommendation)) (records : List Recommendation)
  | dismiss (id dismissedAt : String) (reason : Option String)
  | beginExecution (id targetSessionId startedAt : String)
  | beginExecutionChecked (id targetSessionId startedAt : String)
      (mutation : CompletionMutationRequest) (approver : String)
  | completeExecution (id completedAt : String)
  | completeAccepted (id completedAt : String)
  | completeAcceptedChecked (id completedAt : String) (mutation : CompletionMutationRequest)
  | cancelExecution (id cancelledAt : String)
  | replaceCompletionPacket (id : String) (expectedRevision : Nat) (replacement : CompletionPacket)
      (updatedAt : String)
  | recoverOrphanedExecutions (live protectedIds : String → Bool) (recoveredAt : String)
  | deleteSelected (select : Recommendation → Bool)

/-- `complete_accepted_checked` on records, with what it returns. -/
def completeAcceptedCheckedResult (digests : Digests) (id completedAt : String)
    (mutation : CompletionMutationRequest) (records : Records) :
    Except StoreError (Option Recommendation × Records) := do
  asGraphInvariant mutation.validate
  readRecords digests records
  if !validId id then return (none, records)
  else match records[id]? with
    | none => return (none, records)
    | some recommendation => do
      let changed ← completeAcceptedCheckedChange id completedAt mutation recommendation
      match changed with
      | none => return (some recommendation, records)
      | some next => do
        let stored ← putResult digests next records
        return (some next, stored)

/-- `replace_completion_packet` on records. -/
def replacePacketResult (digests : Digests) (id : String) (expectedRevision : Nat)
    (replacement : CompletionPacket) (updatedAt : String) (records : Records) :
    Except StoreError Records := do
  validateEach digests (values records)
  match records[id]? with
  | none => return records
  | some current => do
    let next ← replacePacketChange id expectedRevision replacement updatedAt current
    validateRecommendation digests next
    validateGraphRecords digests (values (records.insert id next))
    verifyRecords records (expectedRecords records [id])
    return records.insert id next

/-- `delete_referencing_session` and `scrub_orphans` on records. -/
def deleteResult (digests : Digests) (select : Recommendation → Bool) (records : Records) :
    Except StoreError Records := do
  readRecords digests records
  let ids := deletionGraphIds (values records) (((values records).filter select).map (·.id)).toFinset
  let next := records.filter (fun id _ => decide (id ∉ ids))
  verifyRecords records (expectedRecords records (records.keys.filter (fun id => decide (id ∈ ids))))
  validateGraphRecords digests (values next)
  return next

namespace StoreOperation

/-- The records an operation leaves, or its refusal. -/
def result (digests : Digests) : StoreOperation → Records → Except StoreError Records
  | .put recommendation, records => putResult digests recommendation records
  | .applyGraph expected graph, records => applyRecords digests records expected graph
  | .dismiss id dismissedAt reason, records =>
    updateResult digests id (dismissChange dismissedAt reason) records
  | .beginExecution id targetSessionId startedAt, records =>
    updateResult digests id (beginExecutionChange targetSessionId startedAt) records
  | .beginExecutionChecked id targetSessionId startedAt mutation approver, records => do
    asGraphInvariant mutation.validate
    updateResult digests id
      (beginExecutionCheckedChange digests id targetSessionId startedAt mutation approver) records
  | .completeExecution id completedAt, records =>
    updateResult digests id (completeExecutionChange completedAt) records
  | .completeAccepted id completedAt, records =>
    updateResult digests id (completeAcceptedChange completedAt) records
  | .completeAcceptedChecked id completedAt mutation, records =>
    (completeAcceptedCheckedResult digests id completedAt mutation records).map Prod.snd
  | .cancelExecution id cancelledAt, records => cancelResult digests id cancelledAt records
  | .replaceCompletionPacket id expectedRevision replacement updatedAt, records =>
    replacePacketResult digests id expectedRevision replacement updatedAt records
  | .recoverOrphanedExecutions live protectedIds recoveredAt, records =>
    recoverOrphansResult digests live protectedIds recoveredAt records
  | .deleteSelected select, records => deleteResult digests select records

/-- A refusal leaves the records as they are. -/
def perform (digests : Digests) (operation : StoreOperation) (records : Records) : Records :=
  orElseKeep records (operation.result digests records)

/-- The records that an operation's caller hands it whole. -/
def written : StoreOperation → List Recommendation
  | .put recommendation => [recommendation]
  | .applyGraph _ records => records
  | _ => []

/-- What an operation makes of a stored record. -/
def Changes (digests : Digests) (id : String) (r r' : Recommendation) : StoreOperation → Prop
  | .put _ | .applyGraph _ _ | .deleteSelected _ => False
  | .dismiss target dismissedAt reason => target = id ∧ dismissChange dismissedAt reason r = .ok r'
  | .beginExecution target session startedAt =>
    target = id ∧ beginExecutionChange session startedAt r = .ok r'
  | .beginExecutionChecked target session startedAt mutation approver =>
    target = id ∧
      beginExecutionCheckedChange digests id session startedAt mutation approver r = .ok r'
  | .completeExecution target completedAt => target = id ∧ completeExecutionChange completedAt r = .ok r'
  | .completeAccepted target completedAt => target = id ∧ completeAcceptedChange completedAt r = .ok r'
  | .completeAcceptedChecked target completedAt mutation =>
    target = id ∧ completeAcceptedCheckedChange id completedAt mutation r = .ok (some r')
  | .cancelExecution target cancelledAt =>
    target = id ∧ ∃ next, cancelExecutionChange cancelledAt r = .ok next ∧
      (r' = next ∨ r' = { next with status := .superseded })
  | .replaceCompletionPacket target expectedRevision replacement updatedAt =>
    target = id ∧ replacePacketChange id expectedRevision replacement updatedAt r = .ok r'
  | .recoverOrphanedExecutions live protectedIds recoveredAt =>
    orphaned live protectedIds id r = true ∧ r' = reproposed r recoveredAt

end StoreOperation

/-- What can become of the record of an id. -/
inductive Turns (digests : Digests) (records : Records) (id : String) (operation : StoreOperation) :
    Option Recommendation → Prop where
  | kept : Turns digests records id operation records[id]?
  | written {r : Recommendation} (member : r ∈ operation.written) (keyed : r.id = id)
      (valid : validateRecommendation digests r = .ok ())
      (final : (∃ given, operation = .put given) ∨ ∀ old, records[id]? = some old →
        finalStatus old.status = true → r = old) : Turns digests records id operation (some r)
  | changed {r r' : Recommendation} (stored : records[id]? = some r)
      (changes : operation.Changes digests id r r') (keyed : r'.id = id) (safe : validId id = true)
      (valid : validateRecommendation digests r' = .ok ()) :
      Turns digests records id operation (some r')
  | removed {select : Recommendation → Bool} (deletes : operation = .deleteSelected select) :
      Turns digests records id operation none

section turns
variable {digests : Digests} {records next : Records}

variable {target : String} {expected : List (String × Option Recommendation)}

theorem Turns.of_insert (hkeyed : Keyed records) (operation : StoreOperation) {target : String}
    {r r' : Recommendation} (stored : records[target]? = some r) (same : r'.id = r.id)
    (changes : operation.Changes digests target r r') (safe : validId target = true)
    (valid : validateRecommendation digests r' = .ok ()) (id : String) :
    Turns digests records id operation (records.insert r'.id r')[id]? := by
  have hid : r'.id = target := same.trans (hkeyed target r stored)
  rw [get_insert, hid]
  split
  · next here =>
    subst here
    exact .changed stored changes hid safe valid
  · exact .kept

theorem updateResult_turns (hkeyed : Keyed records) (operation : StoreOperation)
    {change : Recommendation → Except StoreError Recommendation}
    (hchange : ∀ r r', change r = .ok r' → r'.id = r.id ∧ operation.Changes digests target r r')
    (h : updateResult digests target change records = .ok next) (id : String) :
    Turns digests records id operation next[id]? := by
  obtain ⟨-, ⟨-, rfl⟩ | ⟨r, safe, stored, h⟩⟩ := onFound_ok.mp h
  · exact .kept
  · obtain ⟨r', changed, put⟩ := bind_eq_ok.mp h
    obtain ⟨valid, rfl⟩ := putResult_ok.mp put
    obtain ⟨same, changes⟩ := hchange r r' changed
    exact Turns.of_insert hkeyed operation stored same changes safe valid id

theorem completeAcceptedChecked_turns (hkeyed : Keyed records) {completedAt : String}
    {mutation : CompletionMutationRequest}
    {answer : Option Recommendation}
    (h : completeAcceptedCheckedResult digests target completedAt mutation records
      = .ok (answer, next)) (id : String) :
    Turns digests records id (.completeAcceptedChecked target completedAt mutation) next[id]? := by
  obtain ⟨-, ⟨-, absent⟩ | ⟨r, safe, stored, h⟩⟩ := onFound_ok.mp (seq_eq_ok.mp h).2
  · cases absent
    exact .kept
  · obtain ⟨changed, hchanged, h⟩ := bind_eq_ok.mp h
    cases changed with
    | none =>
      cases h
      exact .kept
    | some r' =>
      obtain ⟨after, put, h⟩ := bind_eq_ok.mp h
      cases h
      obtain ⟨valid, rfl⟩ := putResult_ok.mp put
      have once : completedOnce target completedAt mutation r = .ok r' := by
        unfold completedOnce
        rw [hchanged]
        rfl
      exact Turns.of_insert hkeyed (.completeAcceptedChecked target completedAt mutation) stored
        (completedOnce_moves once).id ⟨rfl, hchanged⟩ safe valid id

theorem cancelResult_turns (hkeyed : Keyed records) {cancelledAt : String}
    (h : cancelResult digests target cancelledAt records = .ok next) (id : String) :
    Turns digests records id (.cancelExecution target cancelledAt) next[id]? := by
  obtain ⟨-, ⟨-, rfl⟩ | ⟨r, safe, stored, h⟩⟩ := onFound_ok.mp h
  · exact .kept
  · obtain ⟨proposed, changed, h⟩ := bind_eq_ok.mp h
    obtain ⟨first, put, h⟩ := bind_eq_ok.mp h
    obtain ⟨valid, rfl⟩ := putResult_ok.mp put
    have same : proposed.id = r.id := (cancelExecutionChange_moves changed).id
    split at h
    · obtain ⟨validNow, rfl⟩ := putResult_ok.mp h
      -- the superseded record is put over the proposed one
      have overwritten : ((records.insert proposed.id proposed).insert proposed.id
          { proposed with status := .superseded })[id]?
          = (records.insert proposed.id { proposed with status := .superseded })[id]? := by
        rw [get_insert, get_insert, get_insert]
        split <;> rfl
      exact overwritten ▸ @Turns.of_insert digests records hkeyed (.cancelExecution target cancelledAt) _ _
        { proposed with status := .superseded } stored same ⟨rfl, proposed, changed, .inr rfl⟩
        safe validNow id
    · cases h
      exact Turns.of_insert hkeyed (.cancelExecution target cancelledAt) stored same
        ⟨rfl, proposed, changed, .inl rfl⟩ safe valid id

theorem validId_of_verified (h : verifyRecords records expected = .ok ()) {id : String}
    {r : Recommendation} (stored : records[id]? = some r) : validId id = true :=
  (verifyRecords_ok.mp h).2 id (TextMap.mem_keys.mpr ⟨r, stored⟩)

theorem replacePacketResult_turns (hkeyed : Keyed records) {updatedAt : String}
    {expectedRevision : Nat} {replacement : CompletionPacket}
    (h : replacePacketResult digests target expectedRevision replacement updatedAt records = .ok next)
    (id : String) :
    Turns digests records id
      (.replaceCompletionPacket target expectedRevision replacement updatedAt) next[id]? := by
  unfold replacePacketResult at h
  obtain ⟨-, h⟩ := seq_eq_ok.mp h
  split at h
  · cases h
    exact .kept
  · next r stored =>
    obtain ⟨r', changed, h⟩ := bind_eq_ok.mp h
    obtain ⟨valid, h⟩ := seq_eq_ok.mp h
    obtain ⟨-, h⟩ := seq_eq_ok.mp h
    obtain ⟨verified, h⟩ := seq_eq_ok.mp h
    cases h
    have same := replacePacketChange_id changed
    have hid : r'.id = target := same.trans (hkeyed target r stored)
    rw [← hid]
    exact Turns.of_insert hkeyed
      (.replaceCompletionPacket r'.id expectedRevision replacement updatedAt) stored same ⟨hid, changed⟩
      (validId_of_verified verified stored) valid id

theorem recoverOrphans_turns (hkeyed : Keyed records) {live protectedIds : String → Bool}
    {recoveredAt : String}
    (h : recoverOrphansResult digests live protectedIds recoveredAt records = .ok next) (id : String) :
    Turns digests records id (.recoverOrphanedExecutions live protectedIds recoveredAt) next[id]? := by
  unfold recoverOrphansResult at h
  obtain ⟨-, h⟩ := seq_eq_ok.mp h
  obtain ⟨-, h⟩ := seq_eq_ok.mp h
  split at h
  · cases h
    exact .kept
  · obtain ⟨-, h⟩ := seq_eq_ok.mp h
    obtain ⟨verified, h⟩ := seq_eq_ok.mp h
    obtain ⟨valid, h⟩ := seq_eq_ok.mp h
    cases h
    cases stored : records[id]? with
    | none =>
      rw [get_map, stored, Option.map_none, ← stored]
      exact .kept
    | some r =>
      have now : ∀ r', (records.map (fun id recommendation =>
          if orphaned live protectedIds id recommendation then reproposed recommendation recoveredAt
          else recommendation))[id]? = some r' → validateRecommendation digests r' = .ok () := by
        intro r' hr'
        exact validateEach_ok.mp valid r' (mem_values.mpr ⟨id, hr'⟩)
      rw [get_map, stored, Option.map_some] at now ⊢
      by_cases orphan : orphaned live protectedIds id r = true
      · rw [if_pos orphan] at now ⊢
        exact .changed stored ⟨orphan, rfl⟩ (hkeyed id r stored)
          (validId_of_verified verified stored) (now _ rfl)
      · rw [if_neg orphan, ← stored]
        exact .kept

theorem deleteResult_turns {select : Recommendation → Bool}
    (h : deleteResult digests select records = .ok next) (id : String) :
    Turns digests records id (.deleteSelected select) next[id]? := by
  unfold deleteResult at h
  obtain ⟨-, h⟩ := seq_eq_ok.mp h
  obtain ⟨-, h⟩ := seq_eq_ok.mp h
  obtain ⟨-, h⟩ := seq_eq_ok.mp h
  cases h
  rw [get_filter]
  cases kept : Option.filter _ _ with
  | none => exact .removed rfl
  | some r =>
    rw [← (Option.filter_eq_some_iff.mp kept).1]
    exact .kept

theorem applyRecords_turns
    {graph : List Recommendation} (h : applyRecords digests records expected graph = .ok next)
    (id : String) : Turns digests records id (.applyGraph expected graph) next[id]? := by
  unfold applyRecords at h
  obtain ⟨-, h⟩ := seq_eq_ok.mp h
  obtain ⟨-, h⟩ := seq_eq_ok.mp h
  obtain ⟨-, h⟩ := seq_eq_ok.mp h
  obtain ⟨-, h⟩ := seq_eq_ok.mp h
  obtain ⟨kept, h⟩ := seq_eq_ok.mp h
  obtain ⟨valid, h⟩ := seq_eq_ok.mp h
  cases h
  have stays := checkKept_iff.mp kept
  cases now : (recordsById graph)[id]? with
  | none =>
    -- no stored record is removed, so there was none
    cases stored : records[id]? with
    | none => exact stored ▸ .kept
    | some r =>
      obtain ⟨⟨r', there⟩, -⟩ := stays (id, r) (mem_toList.mpr stored)
      rw [now] at there
      cases there
  | some r =>
    obtain ⟨member, keyed⟩ : r ∈ graph ∧ r.id = id := by
      rcases mem_of_get_foldl (f := fun r : Recommendation => r.id) now with empty | member
      · rw [get_empty] at empty
        cases empty
      · exact member
    refine .written member keyed (validateEach_ok.mp valid r (mem_values.mpr ⟨id, now⟩)) (.inr ?_)
    intro old stored final
    have same := (stays (id, old) (mem_toList.mpr stored)).2 final
    rw [now, Option.some.injEq] at same
    exact same

theorem result_turns (hkeyed : Keyed records) {operation : StoreOperation}
    (h : operation.result digests records = .ok next) (id : String) :
    Turns digests records id operation next[id]? := by
  cases operation with
  | put r =>
    obtain ⟨valid, rfl⟩ := putResult_ok.mp h
    rw [get_insert]
    split
    · next here => exact .written (List.mem_singleton.mpr rfl) here valid (.inl ⟨r, rfl⟩)
    · exact .kept
  | applyGraph expected graph => exact applyRecords_turns h id
  | dismiss target dismissedAt reason =>
    exact updateResult_turns hkeyed (.dismiss target dismissedAt reason)
      (fun _ _ hc => ⟨(dismissChange_moves hc).id, rfl, hc⟩) h id
  | beginExecution target session startedAt =>
    exact updateResult_turns hkeyed (.beginExecution target session startedAt)
      (fun _ _ hc => ⟨(beginExecutionChange_moves hc).id, rfl, hc⟩) h id
  | beginExecutionChecked target session startedAt mutation approver =>
    obtain ⟨-, h⟩ := seq_eq_ok.mp h
    exact updateResult_turns hkeyed (.beginExecutionChecked target session startedAt mutation approver)
      (fun _ _ hc => ⟨(beginExecutionCheckedChange_moves hc).id, rfl, hc⟩) h id
  | completeExecution target completedAt =>
    exact updateResult_turns hkeyed (.completeExecution target completedAt)
      (fun _ _ hc => ⟨(completeExecutionChange_moves hc).id, rfl, hc⟩)
      h id
  | completeAccepted target completedAt =>
    exact updateResult_turns hkeyed (.completeAccepted target completedAt)
      (fun _ _ hc => ⟨(completeAcceptedChange_moves hc).id, rfl, hc⟩)
      h id
  | completeAcceptedChecked target completedAt mutation =>
    change Except.map Prod.snd _ = _ at h
    cases answered : completeAcceptedCheckedResult digests target completedAt mutation records with
    | error e =>
      rw [answered] at h
      cases h
    | ok answer =>
      rw [answered] at h
      cases h
      exact completeAcceptedChecked_turns hkeyed answered id
  | cancelExecution target cancelledAt => exact cancelResult_turns hkeyed h id
  | replaceCompletionPacket target expectedRevision replacement updatedAt =>
    exact replacePacketResult_turns hkeyed h id
  | recoverOrphanedExecutions live protectedIds recoveredAt => exact recoverOrphans_turns hkeyed h id
  | deleteSelected select => exact deleteResult_turns h id

theorem perform_turns (hkeyed : Keyed records) (operation : StoreOperation) (id : String) :
    Turns digests records id operation (operation.perform digests records)[id]? := by
  unfold StoreOperation.perform orElseKeep
  cases h : operation.result digests records with
  | ok next => exact result_turns hkeyed h id
  | error e => exact .kept

end turns

end Orkworksd.Taskmaster
