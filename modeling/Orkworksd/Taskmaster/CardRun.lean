import Orkworksd.Lib.Run
import Orkworksd.Taskmaster.Audit

/- Runs of the operations on recommendation cards: the workflow refresh, the audit,
   accepting its cleanup card, and the user's actions on one card.

   Every operation is a function of the stored records whose refusal leaves them as
   they are. `Continues` says what all of them but the refresh and the recovery of
   orphaned executions do: a card keeps its id, its family and its link, an open
   card may end, and an ended one stays ended (`CardAction.continues`). No operation of
   these runs rolls cards up, so a run from an empty store has no rollups
   (`Plain`). -/
namespace Orkworksd.Taskmaster
open Lib List TextMap

variable {r r' : Recommendation} {digests : Digests}

/-- What the operations use of their surroundings. -/
structure Surroundings where
  digests : Digests
  size : List WorkflowObservationEvidence → Nat
  chrono : Chrono

inductive CardAction where
  | refresh (context : EvaluationContext) (observations : List WorkflowObservation)
  | audit (context : EvaluationContext)
  | acceptCleanup (id now : String)
  | dismiss (id dismissedAt : String) (reason : Option String)
  | beginExecution (id targetSessionId startedAt : String)
  | beginExecutionChecked (id targetSessionId startedAt : String)
      (mutation : CompletionMutationRequest) (approver : String)
  | completeExecution (id completedAt : String)
  | completeAccepted (id completedAt : String)
  | completeAcceptedChecked (id completedAt : String) (mutation : CompletionMutationRequest)
  | cancelExecution (id cancelledAt : String)
  | recoverOrphanedExecutions (live protectedIds : String → Bool) (recoveredAt : String)

namespace CardAction

/-- The records an operation leaves, or its refusal. -/
def result (env : Surroundings) : CardAction → Records → Except StoreError Records
  | .refresh context observations, records =>
    refreshResult env.digests env.size context observations records
  | .audit context, records =>
    (runRecommendationAudit env.digests env.chrono context records).map Prod.snd
  | .acceptCleanup id now, records =>
    (acceptCleanupRecommendation env.digests id now records).map Prod.snd
  | .dismiss id dismissedAt reason, records =>
    updateResult env.digests id (dismissChange dismissedAt reason) records
  | .beginExecution id targetSessionId startedAt, records =>
    updateResult env.digests id (beginExecutionChange targetSessionId startedAt) records
  | .beginExecutionChecked id targetSessionId startedAt mutation approver, records => do
    asGraphInvariant mutation.validate
    updateResult env.digests id
      (beginExecutionCheckedChange env.digests id targetSessionId startedAt mutation approver)
      records
  | .completeExecution id completedAt, records =>
    updateResult env.digests id (completeExecutionChange completedAt) records
  | .completeAccepted id completedAt, records =>
    updateResult env.digests id (completeAcceptedChange completedAt) records
  | .completeAcceptedChecked id completedAt mutation, records => do
    asGraphInvariant mutation.validate
    updateResult env.digests id (completedOnce id completedAt mutation) records
  | .cancelExecution id cancelledAt, records => cancelResult env.digests id cancelledAt records
  | .recoverOrphanedExecutions live protectedIds recoveredAt, records =>
    recoverOrphansResult env.digests live protectedIds recoveredAt records

def perform (env : Surroundings) (action : CardAction) (records : Records) : Records :=
  orElseKeep records (action.result env records)

end CardAction

/-- One operation, in the sense of `Lib.Run`. -/
def CardStep (env : Surroundings) (records : Records) (action : CardAction) (next : Records) : Prop :=
  next = action.perform env records

/-! ## Cards and their families -/

/-- A card that is proposed or being executed. -/
def isOpen : RecommendationStatus → Bool
  | .proposed | .executing => true
  | _ => false

/-- The dedupe key of an `improve_workflow` family. -/
def improveKey (key : String) : Bool :=
  "improve_workflow:v1:".toList.isPrefixOf key.toList

theorem cleanupKey_not_improve : improveKey "cleanup:v1" = false := by decide

theorem Family.improveKey_dedupeKey (f : Family) : improveKey f.dedupeKey = true := by
  unfold improveKey Family.dedupeKey
  rw [List.isPrefixOf_iff_prefix, String.append_assoc, String.append_assoc, String.toList_append]
  exact prefix_append _ _

/-- A store without rollups. -/
def Plain (records : Records) : Prop :=
  ∀ (id : String) (r : Recommendation), records[id]? = some r →
    r.status ≠ .rolledUp ∧ r.rollupMemberIds = []

/-- What an operation on a card keeps of it. -/
structure Moves (r r' : Recommendation) : Prop where
  id : r'.id = r.id
  dedupeKey : r'.dedupeKey = r.dedupeKey
  supersedes : r'.workflowImprovement.supersedesRecommendationId =
    r.workflowImprovement.supersedesRecommendationId
  memberIds : r'.rollupMemberIds = r.rollupMemberIds
  opens : isOpen r'.status = true → isOpen r.status = true
  final : finalStatus r.status = true → finalStatus r'.status = true
  rolledUp : r'.status = .rolledUp → r.status = .rolledUp

theorem Moves.refl (r : Recommendation) : Moves r r :=
  ⟨rfl, rfl, rfl, rfl, fun h => h, fun h => h, fun h => h⟩

theorem Moves.trans {r'' : Recommendation} (h : Moves r r') (h' : Moves r' r'') :
    Moves r r'' where
  id := h'.id.trans h.id
  dedupeKey := h'.dedupeKey.trans h.dedupeKey
  supersedes := h'.supersedes.trans h.supersedes
  memberIds := h'.memberIds.trans h.memberIds
  opens := fun ho => h.opens (h'.opens ho)
  final := fun hf => h'.final (h.final hf)
  rolledUp := fun hr => h.rolledUp (h'.rolledUp hr)

theorem Moves.of_status {before after : RecommendationStatus}
    (hid : r'.id = r.id) (hkey : r'.dedupeKey = r.dedupeKey)
    (hlink : r'.workflowImprovement.supersedesRecommendationId =
      r.workflowImprovement.supersedesRecommendationId)
    (hmembers : r'.rollupMemberIds = r.rollupMemberIds) (hbefore : r.status = before)
    (hafter : r'.status = after) (hopens : isOpen after = true → isOpen before = true)
    (hfinal : finalStatus before = true → finalStatus after = true)
    (hrolled : after ≠ .rolledUp) : Moves r r' where
  id := hid
  dedupeKey := hkey
  supersedes := hlink
  memberIds := hmembers
  opens := by rw [hbefore, hafter]; exact hopens
  final := by rw [hbefore, hafter]; exact hfinal
  rolledUp := fun h => absurd (hafter.symm.trans h) hrolled

section changes
variable {r r' : Recommendation}

variable {reason : Option String} {dismissedAt : String}

theorem dismissedRecord_moves (h : isOpen r.status = true) :
    Moves r (dismissedRecord r dismissedAt reason) :=
  Moves.of_status rfl rfl rfl rfl rfl rfl (fun ho => by cases ho)
    (fun hf => by cases hs : r.status <;> simp [hs, isOpen, finalStatus] at h hf) (fun hr => by cases hr)

theorem dismissChange_moves (h : dismissChange dismissedAt reason r = .ok r') : Moves r r' := by
  unfold dismissChange at h
  rw [seq_eq_ok, seq_eq_ok, forbid_ok] at h
  obtain ⟨-, hforbid, hr'⟩ := h
  cases hr'
  refine dismissedRecord_moves ?_
  rw [Bool.or_eq_false_iff] at hforbid
  have hstatus := hforbid.2
  cases hs : r.status <;> simp [hs] at hstatus ⊢ <;> rfl

variable {target startedAt : String}

theorem beginExecutionChange_moves (h : beginExecutionChange target startedAt r = .ok r') :
    Moves r r' := by
  unfold beginExecutionChange at h
  rw [seq_eq_ok, seq_eq_ok, forbid_ok] at h
  obtain ⟨-, hforbid, hr'⟩ := h
  cases hr'
  exact Moves.of_status rfl rfl rfl rfl (startsFrom_status hforbid) rfl (fun _ => rfl)
    (fun hf => by cases hf) (fun hr => by cases hr)

variable {mutation : CompletionMutationRequest}

theorem beginExecutionCheckedChange_moves {id : String} {approver : String}
    (h : beginExecutionCheckedChange digests id target startedAt mutation approver r = .ok r') :
    Moves r r' := by
  unfold beginExecutionCheckedChange at h
  rw [seq_eq_ok, seq_eq_ok, forbid_ok] at h
  obtain ⟨-, hforbid, hr'⟩ := h
  split at hr'
  · cases hr'
  · split at hr'
    · cases hr'
    · cases hr'
      exact Moves.of_status rfl rfl rfl rfl (startsFrom_status hforbid) rfl (fun _ => rfl)
        (fun hf => by cases hf) (fun hr => by cases hr)

variable {completedAt : String}

theorem completeExecutionChange_moves (h : completeExecutionChange completedAt r = .ok r') :
    Moves r r' := by
  unfold completeExecutionChange at h
  rw [seq_eq_ok, forbid_ok] at h
  obtain ⟨hforbid, hr'⟩ := h
  cases hr'
  exact Moves.of_status rfl rfl rfl rfl (startsFrom_status hforbid) rfl (fun ho => by cases ho)
    (fun hf => by cases hf) (fun hr => by cases hr)

theorem completeAcceptedChange_moves (h : completeAcceptedChange completedAt r = .ok r') :
    Moves r r' := by
  unfold completeAcceptedChange at h
  rw [seq_eq_ok, seq_eq_ok, forbid_ok] at h
  obtain ⟨-, hforbid, hr'⟩ := h
  cases hr'
  exact Moves.of_status rfl rfl rfl rfl (startsFrom_status hforbid) rfl (fun ho => by cases ho)
    (fun _ => rfl) (fun hr => by cases hr)

theorem completedOnce_moves {id : String} (h : completedOnce id completedAt mutation r = .ok r') :
    Moves r r' := by
  unfold completedOnce at h
  rw [bind_eq_ok] at h
  obtain ⟨changed, hchanged, hr'⟩ := h
  unfold completeAcceptedCheckedChange at hchanged
  rw [seq_eq_ok] at hchanged
  obtain ⟨-, hchanged⟩ := hchanged
  split at hchanged
  · cases hchanged
  split at hchanged
  · cases hchanged
  split at hchanged
  · split at hchanged
    · -- a repeated request
      cases hchanged
      cases hr'
      exact Moves.refl r
    · cases hchanged
  split at hchanged
  · cases hchanged
  split at hchanged
  · cases hchanged
  · rename_i hstarts
    cases hchanged
    cases hr'
    rw [Bool.not_eq_true, Bool.or_eq_false_iff] at hstarts
    exact Moves.of_status rfl rfl rfl rfl (startsFrom_status hstarts.1) rfl
      (fun ho => by cases ho) (fun _ => rfl) (fun hr => by cases hr)

theorem cancelExecutionChange_moves {cancelledAt : String}
    (h : cancelExecutionChange cancelledAt r = .ok r') : Moves r r' := by
  unfold cancelExecutionChange at h
  rw [seq_eq_ok, forbid_ok] at h
  obtain ⟨hforbid, hr'⟩ := h
  cases hr'
  exact Moves.of_status rfl rfl rfl rfl (startsFrom_status hforbid) rfl (fun _ => rfl)
    (fun hf => by cases hf) (fun hr => by cases hr)

end changes

/-! ## Operations on one record -/

section found
variable {β : Type} {digests : Digests} {records next : Records} {id : String} {absent b : β}
  {change : Recommendation → Except StoreError β}

/-- The shape of the operations on one record: `absent` is the answer when it is not there. -/
def onFound (digests : Digests) (id : String) (records : Records) (absent : β)
    (change : Recommendation → Except StoreError β) : Except StoreError β := do
  readRecords digests records
  if !validId id then return absent
  else match records[id]? with
    | none => return absent
    | some recommendation => change recommendation

theorem onFound_ok : onFound digests id records absent change = .ok b ↔
    readRecords digests records = .ok () ∧
      ((¬ validId id = true ∨ records[id]? = none) ∧ b = absent ∨
        ∃ r, validId id = true ∧ records[id]? = some r ∧ change r = .ok b) := by
  unfold onFound
  rw [seq_eq_ok]
  refine and_congr_right (fun _ => ?_)
  cases hid : validId id with
  | false => simp [pure, Except.pure, eq_comm]
  | true => cases records[id]? <;> simp [pure, Except.pure, eq_comm]

theorem putResult_ok :
    putResult digests r records = .ok next ↔
      validateRecommendation digests r = .ok () ∧ next = records.insert r.id r := by
  unfold putResult
  rw [seq_eq_ok]
  exact and_congr_right (fun _ => ⟨fun h => by cases h; rfl, fun h => by rw [h]; rfl⟩)

end found

/-! ## What every operation but two does -/

/-- Every card stays, cards that have ended keep their place, and the cards of the
`improve_workflow` families are the old ones, none of them opened. -/
structure Continues (records next : Records) : Prop where
  keyed : Keyed next
  plain : Plain records → Plain next
  old : ∀ (id : String) (r : Recommendation), records[id]? = some r →
    ∃ r', next[id]? = some r' ∧ (finalStatus r.status = true → Moves r r')
  new : ∀ (id : String) (r' : Recommendation), next[id]? = some r' →
    improveKey r'.dedupeKey = true → ∃ r, records[id]? = some r ∧ Moves r r'

section continues
variable {records next : Records}

theorem Continues.refl (hkeyed : Keyed records) : Continues records records where
  keyed := hkeyed
  plain := fun h => h
  old := fun _ r h => ⟨r, h, fun _ => Moves.refl r⟩
  new := fun _ r h _ => ⟨r, h, Moves.refl r⟩

theorem Continues.trans {last : Records} (h : Continues records next) (h' : Continues next last) :
    Continues records last where
  keyed := h'.keyed
  plain := fun hp => h'.plain (h.plain hp)
  old := by
    intro id r hr
    obtain ⟨r', hr', hmoves⟩ := h.old id r hr
    obtain ⟨r'', hr'', hmoves'⟩ := h'.old id r' hr'
    refine ⟨r'', hr'', fun hf => ?_⟩
    exact (hmoves hf).trans (hmoves' ((hmoves hf).final hf))
  new := by
    intro id r'' hr'' hkey
    obtain ⟨r', hr', hmoves'⟩ := h'.new id r'' hr'' hkey
    obtain ⟨r, hr, hmoves⟩ := h.new id r' hr' (hmoves'.dedupeKey ▸ hkey)
    exact ⟨r, hr, hmoves.trans hmoves'⟩

variable {g : Recommendation → Recommendation}

theorem Continues.of_map (hkeyed : Keyed records)
    (hmoves : ∀ (id : String) (r : Recommendation), records[id]? = some r → Moves r (g r))
    (hnext : ∀ id : String, next[id]? = (records[id]?).map g) : Continues records next where
  keyed := by
    intro id r' hr'
    rw [hnext, Option.map_eq_some_iff] at hr'
    obtain ⟨r, hr, rfl⟩ := hr'
    rw [(hmoves id r hr).id]
    exact hkeyed id r hr
  plain := by
    intro hplain id r' hr'
    rw [hnext, Option.map_eq_some_iff] at hr'
    obtain ⟨r, hr, rfl⟩ := hr'
    obtain ⟨hstatus, hmembers⟩ := hplain id r hr
    exact ⟨fun h => hstatus ((hmoves id r hr).rolledUp h), (hmoves id r hr).memberIds.trans hmembers⟩
  old := by
    intro id r hr
    exact ⟨g r, by rw [hnext, hr]; rfl, fun _ => hmoves id r hr⟩
  new := by
    intro id r' hr' _
    rw [hnext, Option.map_eq_some_iff] at hr'
    obtain ⟨r, hr, rfl⟩ := hr'
    exact ⟨r, hr, hmoves id r hr⟩

theorem Continues.of_update (hkeyed : Keyed records) (hr : records[r.id]? = some r)
    (hmoves : Moves r r') :
    Continues records (records.insert r'.id r') := by
  refine Continues.of_map (g := fun x => if x.id = r.id then r' else x) hkeyed ?_ ?_
  · intro id x hx
    by_cases hid : x.id = r.id
    · have hsame : x = r := by
        rw [← hkeyed id x hx, hid, hr, Option.some.injEq] at hx
        exact hx.symm
      rw [if_pos hid, hsame]
      exact hmoves
    · rw [if_neg hid]
      exact Moves.refl x
  · intro id
    rw [get_insert, hmoves.id]
    by_cases hid : r.id = id
    · rw [if_pos hid, ← hid, hr, Option.map_some, if_pos rfl]
    · rw [if_neg hid]
      cases hget : records[id]? with
      | none => rfl
      | some x =>
        have hx : ¬ x.id = r.id := fun h => hid (h.symm.trans (hkeyed id x hget))
        rw [Option.map_some, if_neg hx]

theorem Continues.of_card (hkeyed : Keyed records) {card : Recommendation}
    (hkey : improveKey card.dedupeKey = false) (hstatus : card.status ≠ .rolledUp)
    (hmembers : card.rollupMemberIds = [])
    (hopen : ∀ r, records[card.id]? = some r → finalStatus r.status = false) :
    Continues records (records.insert card.id card) where
  keyed := hkeyed.insert card
  plain := by
    intro hplain id r hr
    rw [get_insert] at hr
    split at hr
    · cases hr
      exact ⟨hstatus, hmembers⟩
    · exact hplain id r hr
  old := by
    intro id r hr
    by_cases hid : card.id = id
    · refine ⟨card, by rw [get_insert, if_pos hid], fun hf => ?_⟩
      rw [hopen r (hid ▸ hr)] at hf
      cases hf
    · exact ⟨r, by rw [get_insert_ne hid, hr], fun _ => Moves.refl r⟩
  new := by
    intro id r' hr' himprove
    rw [get_insert] at hr'
    split at hr'
    · cases hr'
      rw [hkey] at himprove
      cases himprove
    · exact ⟨r', hr', Moves.refl r'⟩

variable {id : String}

theorem updateResult_continues {change : Recommendation → Except StoreError Recommendation}
    (hkeyed : Keyed records) (hchange : ∀ r r', change r = .ok r' → Moves r r')
    (h : updateResult digests id change records = .ok next) : Continues records next := by
  obtain ⟨-, ⟨-, rfl⟩ | ⟨r, -, hr, h⟩⟩ := onFound_ok.mp h
  · exact Continues.refl hkeyed
  · obtain ⟨r', hr', hput⟩ := bind_eq_ok.mp h
    obtain ⟨-, rfl⟩ := putResult_ok.mp hput
    rw [← hkeyed id r hr] at hr
    exact Continues.of_update hkeyed hr (hchange r r' hr')

theorem cancelResult_continues {cancelledAt : String} (hkeyed : Keyed records)
    (h : cancelResult digests id cancelledAt records = .ok next) : Continues records next := by
  obtain ⟨-, ⟨-, rfl⟩ | ⟨r, -, hr, h⟩⟩ := onFound_ok.mp h
  · exact Continues.refl hkeyed
  · obtain ⟨r', hr', h⟩ := bind_eq_ok.mp h
    obtain ⟨stored, hput, h⟩ := bind_eq_ok.mp h
    obtain ⟨-, rfl⟩ := putResult_ok.mp hput
    rw [← hkeyed id r hr] at hr
    have hfirst := Continues.of_update hkeyed hr (cancelExecutionChange_moves hr')
    split at h
    · obtain ⟨-, rfl⟩ := putResult_ok.mp h
      refine hfirst.trans (Continues.of_update hfirst.keyed get_insert_self ?_)
      exact Moves.of_status rfl rfl rfl rfl rfl rfl (fun ho => by cases ho) (fun _ => rfl)
        (fun hr => by cases hr)
    · cases h
      exact hfirst

variable {l : List Recommendation}

theorem recordsById_get (hnodup : (l.map (·.id)).Nodup) :
    (recordsById l)[id]? = some r ↔ r ∈ l ∧ r.id = id := by
  constructor
  · intro h
    rcases mem_of_get_foldl (f := fun r : Recommendation => r.id) h with hempty | hmem
    · rw [get_empty] at hempty
      cases hempty
    · exact hmem
  · rintro ⟨hmem, rfl⟩
    exact get_foldl_of_mem (f := fun r : Recommendation => r.id) hnodup hmem

theorem recordsById_map (hkeyed : Keyed records) (hid : ∀ r ∈ listing records, (g r).id = r.id)
    (id : String) : (recordsById ((listing records).map g))[id]? = (records[id]?).map g := by
  have hids : ((listing records).map g).map (·.id) = (listing records).map (·.id) := by
    rw [map_map]
    exact map_congr_left hid
  have hnodup : (((listing records).map g).map (·.id)).Nodup := by
    rw [hids]
    exact listing_ids_nodup hkeyed
  apply Option.ext
  intro r'
  rw [recordsById_get hnodup, mem_map, Option.map_eq_some_iff]
  constructor
  · rintro ⟨⟨r, hr, rfl⟩, hrid⟩
    refine ⟨r, ?_, rfl⟩
    rw [← hrid, hid r hr]
    exact (mem_listing hkeyed).mp hr
  · rintro ⟨r, hr, rfl⟩
    have hrid := hkeyed id r hr
    have hmem : r ∈ listing records := (mem_listing hkeyed).mpr (hrid.symm ▸ hr)
    exact ⟨⟨r, hmem, rfl⟩, (hid r hmem).trans hrid⟩

/-- The records rewritten one by one, each within what a card keeps. -/
def Rewrites (records : Records) (l : List Recommendation) : Prop :=
  ∃ g, l = (listing records).map g ∧ ∀ r ∈ listing records, Moves r (g r)

theorem Rewrites.continues (hkeyed : Keyed records) (h : Rewrites records l) :
    Continues records (recordsById l) := by
  obtain ⟨g, rfl, hmoves⟩ := h
  have hstored : ∀ (id : String) (r : Recommendation), records[id]? = some r →
      r ∈ listing records := by
    intro id r hr
    exact (mem_listing hkeyed).mpr ((hkeyed id r hr).symm ▸ hr)
  refine Continues.of_map hkeyed (fun id r hr => hmoves r (hstored id r hr)) ?_
  exact recordsById_map hkeyed (fun r hr => (hmoves r hr).id)

theorem Rewrites.start : Rewrites records (listing records) :=
  ⟨id, (map_id _).symm, fun r _ => Moves.refl r⟩

theorem Rewrites.replace (h : Rewrites records l)
    (hmoves : ∀ r ∈ listing records, r.id = r'.id → Moves r r') :
    Rewrites records (replaceById r' l) := by
  obtain ⟨g, rfl, hg⟩ := h
  refine ⟨fun r => if (g r).id == r'.id then r' else g r, by rw [replaceById, map_map]; rfl, ?_⟩
  intro r hr
  by_cases hid : (g r).id = r'.id
  · simp only [hid, beq_self_eq_true, if_true]
    exact hmoves r hr ((hg r hr).id.symm.trans hid)
  · have hfalse : ((g r).id == r'.id) = false := by simpa using hid
    simp only [hfalse, Bool.false_eq_true, if_false]
    exact hg r hr

theorem Rewrites.find (h : Rewrites records l)
    (hfind : findById l id = some r') : ∃ r ∈ listing records, Moves r r' := by
  obtain ⟨g, rfl, hg⟩ := h
  obtain ⟨r, hr, rfl⟩ := mem_map.mp (findById_mem hfind).1
  exact ⟨r, hr, hg r hr⟩

variable {now : String}

variable {progress progress' : CleanupProgress} {cardId : String}

theorem cleanupEntry_rewrites (hkeyed : Keyed records) {entry : AuditCleanupEntry}
    (hprogress : Rewrites records progress.next)
    (h : cleanupEntry cardId now progress entry = .ok progress') :
    Rewrites records progress'.next := by
  unfold cleanupEntry at h
  split at h
  · cases h
  rename_i current hfind
  split at h
  · cases h
    exact hprogress
  rename_i hproposed
  split at h
  · cases h
  · cases h
    obtain ⟨r, hr, hmoves⟩ := hprogress.find hfind
    have hopen : isOpen current.status = true := by
      have hstatus : current.status = .proposed := by simpa using hproposed
      rw [hstatus]
      rfl
    refine hprogress.replace ?_
    intro x hx hid
    have hsame : x = r := inj_on_of_nodup_map (listing_ids_nodup hkeyed) hx hr (hid.trans hmoves.id)
    rw [hsame]
    exact hmoves.trans (dismissedRecord_moves hopen)

theorem cleanupEntries_rewrites (hkeyed : Keyed records) {entries : List AuditCleanupEntry}
    (hprogress : Rewrites records progress.next)
    (h : entries.foldlM (cleanupEntry cardId now) progress = .ok progress') :
    Rewrites records progress'.next := by
  induction entries generalizing progress with
  | nil =>
    cases h
    exact hprogress
  | cons entry rest ih =>
    rw [foldlM_cons, bind_eq_ok] at h
    obtain ⟨middle, hmiddle, hrest⟩ := h
    exact ih (cleanupEntry_rewrites hkeyed hprogress hmiddle) hrest

theorem map_eq_ok {ε α β : Type} {x : Except ε α} {f : α → β} {b : β} :
    x.map f = .ok b ↔ ∃ a, x = .ok a ∧ f a = b := by
  cases x <;> simp [Except.map]

theorem acceptCleanup_continues (hkeyed : Keyed records)
    (h : (acceptCleanupRecommendation digests id now records).map Prod.snd = .ok next) :
    Continues records next := by
  obtain ⟨⟨outcome, last⟩, h, hlast⟩ := map_eq_ok.mp h
  rw [← hlast]
  unfold acceptCleanupRecommendation at h
  rw [seq_eq_ok] at h
  obtain ⟨-, h⟩ := h
  simp only at h
  split at h
  · cases h
    exact Continues.refl hkeyed
  rename_i card hcard
  split at h
  · cases h
  rename_i audit haudit
  rw [bind_eq_ok] at h
  obtain ⟨progress, hprogress, h⟩ := h
  rw [bind_eq_ok] at h
  obtain ⟨stored, hstored, h⟩ := h
  cases h
  obtain ⟨-, -, -, -, -, -, rfl⟩ := applyRecords_ok.mp hstored
  have hproposed : card.status = .proposed := by
    unfold acceptableCleanup at haudit
    split at haudit
    · cases haudit
    · rename_i hnot
      rw [Bool.not_eq_true, Bool.or_eq_false_iff] at hnot
      simpa using hnot.2
  refine Rewrites.continues hkeyed ((cleanupEntries_rewrites hkeyed Rewrites.start hprogress).replace ?_)
  intro x hx hid
  have hsame : x = card := inj_on_of_nodup_map (listing_ids_nodup hkeyed) hx
    (findById_mem hcard).1 hid
  rw [hsame]
  exact Moves.of_status rfl rfl rfl rfl hproposed rfl (fun ho => by cases ho)
    (fun hf => by cases hf) (fun hr => by cases hr)

theorem recordsById_put (hkeyed : Keyed records) (card : Recommendation) :
    recordsById ((listing records).filter (fun r => r.id != card.id) ++ [card]) =
      records.insert card.id card := by
  have hids : (((listing records).filter (fun r => r.id != card.id) ++ [card]).map (·.id)).Nodup := by
    rw [map_append, nodup_append]
    refine ⟨?_, by simp, ?_⟩
    · exact (listing_ids_nodup hkeyed).sublist ((filter_sublist).map _)
    · intro a ha b hb
      obtain ⟨r, hr, rfl⟩ := mem_map.mp ha
      rw [map_singleton, mem_singleton] at hb
      rw [hb]
      simpa using (mem_filter.mp hr).2
  apply TextMap.ext
  intro id
  apply Option.ext
  intro r
  rw [recordsById_get hids, get_insert, mem_append, mem_filter, mem_singleton]
  by_cases hid : card.id = id
  · rw [if_pos hid, Option.some.injEq]
    constructor
    · rintro ⟨⟨-, hne⟩ | rfl, hrid⟩
      · simp [hrid, hid] at hne
      · rfl
    · rintro rfl
      exact ⟨.inr rfl, hid⟩
  · rw [if_neg hid]
    constructor
    · rintro ⟨⟨hmem, -⟩ | rfl, hrid⟩
      · rw [← hrid]
        exact (mem_listing hkeyed).mp hmem
      · exact absurd hrid hid
    · intro hr
      have hrid := hkeyed id r hr
      refine ⟨.inl ⟨(mem_listing hkeyed).mpr (hrid.symm ▸ hr), ?_⟩, hrid⟩
      rw [hrid]
      simpa using fun heq : id = card.id => hid heq.symm

theorem audit_continues {chrono : Chrono} {context : EvaluationContext} (hkeyed : Keyed records)
    (h : (runRecommendationAudit digests chrono context records).map Prod.snd = .ok next) :
    Continues records next := by
  obtain ⟨⟨outcome, last⟩, h, hlast⟩ := map_eq_ok.mp h
  rw [← hlast]
  unfold runRecommendationAudit at h
  rw [seq_eq_ok] at h
  obtain ⟨-, h⟩ := h
  simp only at h
  have hprior : ∀ prior, proposedCleanup (listing records) = some prior →
      prior ∈ listing records ∧ prior.status = .proposed := by
    intro prior hprior
    have hstatus := List.find?_some hprior
    simp only [Bool.and_eq_true, beq_iff_eq] at hstatus
    exact ⟨mem_of_find?_eq_some hprior, hstatus.2⟩
  split at h
  · cases h
    exact Continues.refl hkeyed
  · rename_i priorCard _ hpriorCard
    rw [bind_eq_ok] at h
    obtain ⟨stored, hstored, h⟩ := h
    cases h
    obtain ⟨-, -, -, -, -, -, rfl⟩ := applyRecords_ok.mp hstored
    obtain ⟨hmem, hproposed⟩ := hprior priorCard hpriorCard
    refine Rewrites.continues hkeyed (Rewrites.start.replace ?_)
    intro x hx hid
    have hsame : x = priorCard := inj_on_of_nodup_map (listing_ids_nodup hkeyed) hx hmem hid
    rw [hsame]
    exact Moves.of_status rfl rfl rfl rfl hproposed rfl (fun ho => by cases ho)
      (fun hf => by cases hf) (fun hr => by cases hr)
  · rename_i prior card hcard
    rw [bind_eq_ok] at h
    obtain ⟨stored, hstored, h⟩ := h
    cases h
    obtain ⟨-, hverify, -, -, -, -, rfl⟩ := applyRecords_ok.mp hstored
    rw [recordsById_put hkeyed]
    unfold buildCleanupCard at hcard
    simp only at hcard
    split at hcard
    · cases hcard
    rw [Option.some.injEq] at hcard
    -- the card replaces the prior one, or its id is not in use
    have hexpected : records[card.id]? = proposedCleanup (listing records) :=
      ((verifyRecords_ok.mp hverify).1 _ mem_cons_self).2
    refine Continues.of_card hkeyed ?_ ?_ ?_ ?_
    · rw [← hcard]
      exact cleanupKey_not_improve
    · rw [← hcard]
      exact fun hr => by cases hr
    · rw [← hcard]
      rfl
    · intro r hr
      rw [hr] at hexpected
      rw [(hprior r hexpected.symm).2]
      rfl

theorem CardAction.continues {env : Surroundings} {action : CardAction} (hkeyed : Keyed records)
    (hrefresh : ∀ context observations, action ≠ .refresh context observations)
    (horphans : ∀ live protectedIds at_, action ≠ .recoverOrphanedExecutions live protectedIds at_) :
    Continues records (action.perform env records) := by
  unfold CardAction.perform
  cases hresult : action.result env records with
  | error e => exact Continues.refl hkeyed
  | ok next =>
    change Continues records next
    cases action with
    | refresh context observations => exact absurd rfl (hrefresh context observations)
    | audit context => exact audit_continues hkeyed hresult
    | acceptCleanup id now => exact acceptCleanup_continues hkeyed hresult
    | dismiss id at_ reason =>
      exact updateResult_continues hkeyed (fun _ _ => dismissChange_moves) hresult
    | beginExecution id target at_ =>
      exact updateResult_continues hkeyed (fun _ _ => beginExecutionChange_moves) hresult
    | beginExecutionChecked id target at_ mutation approver =>
      exact updateResult_continues hkeyed (fun _ _ => beginExecutionCheckedChange_moves)
        (seq_eq_ok.mp hresult).2
    | completeExecution id at_ =>
      exact updateResult_continues hkeyed (fun _ _ => completeExecutionChange_moves) hresult
    | completeAccepted id at_ =>
      exact updateResult_continues hkeyed (fun _ _ => completeAcceptedChange_moves) hresult
    | completeAcceptedChecked id at_ mutation =>
      exact updateResult_continues hkeyed (fun _ _ => completedOnce_moves) (seq_eq_ok.mp hresult).2
    | cancelExecution id at_ => exact cancelResult_continues hkeyed hresult
    | recoverOrphanedExecutions live protectedIds at_ =>
      exact absurd rfl (horphans live protectedIds at_)

end continues

/-! ## What the refresh does without rollups -/

/-- What a family can find in a store without rollups. -/
inductive PlainStanding (existing : List Recommendation) (key : String) : Lineage → Prop where
  | fresh : (∀ x ∈ existing, x.dedupeKey ≠ key) → PlainStanding existing key ⟨none, none, none⟩
  | proposed (r : Recommendation) : prior existing key = some r → r.status = .proposed →
      PlainStanding existing key ⟨some r, none, none⟩
  | ended (r : Recommendation) : prior existing key = some r → finalStatus r.status = true →
      PlainStanding existing key ⟨some r, none, some r⟩
  | executing (r : Recommendation) : prior existing key = some r → r.status = .executing →
      PlainStanding existing key ⟨some r, none, none⟩

section refresh
variable {digests : Digests} {size : List WorkflowObservationEvidence → Nat}
  {context : EvaluationContext} {observations : List WorkflowObservation} {records next : Records}

theorem Plain.listing (hkeyed : Keyed records) (hplain : Plain records)
    (hr : r ∈ listing records) : r.status ≠ .rolledUp ∧ r.rollupMemberIds = [] :=
  hplain r.id r ((mem_listing hkeyed).mp hr)

theorem Plain.standing (hkeyed : Keyed records) (hplain : Plain records) (key : String) :
    PlainStanding (Taskmaster.listing records) key (lineage (Taskmaster.listing records) key) := by
  have hstanding := lineage_standing (listing_ids_nodup hkeyed) key
  revert hstanding
  generalize lineage (Taskmaster.listing records) key = l
  intro hstanding
  cases hstanding with
  | fresh hnone => exact .fresh (prior_eq_none.mp hnone)
  | proposed r hr hs => exact .proposed r hr hs
  | member r hr ha =>
    exact absurd (isActiveMember_rolledUp ha) (hplain.listing hkeyed (prior_mem hr).1).1
  | ended r q hr hs _ hq =>
    have hrolled := (hplain.listing hkeyed (prior_mem hr).1).1
    have hparent : terminalParent (Taskmaster.listing records) r = none := by
      unfold terminalParent
      rw [if_neg (by simpa using hrolled)]
    unfold predecessorOf at hq
    rw [hparent] at hq
    simp only at hq
    split at hq
    · rename_i hfinal
      cases hq
      refine .ended r hr ?_
      rw [Bool.or_eq_true, beq_iff_eq] at hfinal
      exact hfinal.resolve_right hrolled
    · cases hq
  | executing r hr hs => exact .executing r hr hs

/-- What a proposal over a store without rollups is: the first card of its family,
its open card again, or the successor of one that has ended. -/
theorem Proposes.plain_cases (hkeyed : Keyed records) (hplain : Plain records) {f : Family}
    {p : Recommendation} (hp : Proposes digests context records f p) :
    p.status = .proposed ∧ p.rollupMemberIds = [] ∧ p.rolledUpBy = none ∧
    (((∀ x ∈ listing records, x.dedupeKey ≠ f.dedupeKey) ∧
        p.workflowImprovement.supersedesRecommendationId = none) ∨
      (∃ r, prior (listing records) f.dedupeKey = some r ∧ r.status = .proposed ∧ p.id = r.id ∧
        p.workflowImprovement.supersedesRecommendationId = none) ∨
      (∃ r, prior (listing records) f.dedupeKey = some r ∧ finalStatus r.status = true ∧
        p.workflowImprovement.supersedesRecommendationId = some r.id)) := by
  have heq := hp.eq
  have hbusy := (evaluateFamily_eq_some.mp hp).2.1
  have hstanding := hplain.standing hkeyed f.dedupeKey
  revert heq hbusy hstanding
  generalize lineage (listing records) f.dedupeKey = l
  intro heq hbusy hstanding
  cases hstanding with
  | fresh hnone =>
    rw [heq]
    exact ⟨rfl, rfl, rfl, .inl ⟨hnone, rfl⟩⟩
  | proposed r hr hs =>
    have hid := @proposal_id_kept digests context f _ r (kept_proposed hs)
    rw [heq]
    exact ⟨rfl, rfl, rfl, .inr (.inl ⟨r, hr, hs, hid, rfl⟩)⟩
  | ended r hr hf =>
    rw [heq]
    exact ⟨rfl, rfl, rfl, .inr (.inr ⟨r, hr, hf, rfl⟩)⟩
  | executing r hr hs => simp [Lineage.busy, hs] at hbusy

/-- Everything a refresh does to a store without rollups: cards that have ended
stay, and every card is an old one that no family touched, or is proposed. -/
theorem refresh_cases (hkeyed : Keyed records) (hplain : Plain records)
    (h : refreshResult digests size context observations records = .ok next) :
    Keyed next ∧ Plain next ∧
    (∀ (id : String) (r : Recommendation), records[id]? = some r →
      finalStatus r.status = true → next[id]? = some r) ∧
    ∀ (id : String) (r' : Recommendation), next[id]? = some r' →
      (records[id]? = some r' ∧ ∀ f ∈ families observations, ∀ p,
        Proposes digests context records f p → p.id ≠ id) ∨
      ∃ f ∈ families observations, Proposes digests context records f r' := by
  have hnext := refreshResult_ok hkeyed h
  have hparents : ((changedProposals records (evaluateWorkflowImprovements digests context
      observations (listing records))).filterMap (·.rolledUpBy)) = [] := by
    rw [filterMap_eq_nil_iff]
    intro p hp
    obtain ⟨f, -, hp⟩ := mem_evaluate.mp (mem_filter.mp hp).1
    exact (Proposes.plain_cases hkeyed hplain hp).2.2.1
  have hput : next = putProposals records (evaluateWorkflowImprovements digests context
      observations (listing records)) := by
    rw [hnext, plannedRefresh, refreshPlan, hparents]
    rfl
  have hcases : ∀ (id : String) (r' : Recommendation), next[id]? = some r' →
      (records[id]? = some r' ∧ ∀ f ∈ families observations, ∀ p,
        Proposes digests context records f p → p.id ≠ id) ∨
      ∃ f ∈ families observations, Proposes digests context records f r' := by
    intro id r' hr'
    rw [hput] at hr'
    by_cases hmem : ∃ p ∈ evaluateWorkflowImprovements digests context observations
        (listing records), p.id = id
    · obtain ⟨p, hp, -, hget⟩ := putProposals_of_mem hmem
      rw [hget, Option.some.injEq] at hr'
      exact .inr (mem_evaluate.mp (hr' ▸ hp))
    · push Not at hmem
      rw [putProposals_of_notMem hmem] at hr'
      exact .inl ⟨hr', fun f hf p hp => hmem p (mem_evaluate.mpr ⟨f, hf, hp⟩)⟩
  refine ⟨hnext ▸ refreshPlan_keyed hkeyed, ?_, ?_, hcases⟩
  · intro id r' hr'
    rcases hcases id r' hr' with ⟨hr, -⟩ | ⟨f, -, hp⟩
    · exact hplain id r' hr
    · obtain ⟨hstatus, hmembers, -⟩ := hp.plain_cases hkeyed hplain
      exact ⟨by rw [hstatus]; decide, hmembers⟩
  · intro id r hr hfinal
    obtain ⟨htaken, rfl⟩ := Pass.Taken.of_result
      (P := ⟨digests, size, context, observations, records⟩) hkeyed h
    exact htaken.final id r hr hfinal

end refresh

end Orkworksd.Taskmaster
