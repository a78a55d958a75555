import Orkworksd.Taskmaster.StoreRun
import Orkworksd.Taskmaster.RefreshPacket

/- The approval of a completion packet is spent on that packet and once.

   A packet carries an approval exactly while its record is executing, accepted or
   completed, and a completion key exactly when it is completed; `validate_recommendation`
   checks both on every write. So the operations without a request cannot reserve or
   complete a record with a packet, and what the others do to its packet is one of six
   moves (`Changes.packetMove`). Along a run an approval therefore stands for a
   `begin_execution_checked` that nothing has revoked (`Approvals.step`).

   `put` and graph transactions store what they are given, approvals and completions
   included (`put_completes`). The runs here are those where they leave the reservation of
   a record alone (`Respects`). -/
namespace Orkworksd.Taskmaster
open Lib List TextMap

/-! ## What validation says of a packet -/

section valid
variable {digests : Digests} {r : Recommendation} {p : CompletionPacket}

theorem refuse_ok {condition : Bool} {message : String} :
    refuse condition message = .ok () ↔ condition = false := by
  cases condition <;> simp [refuse]

theorem validatePacket_of_valid (valid : validateRecommendation digests r = .ok ())
    (packet : r.completionPacket = some p) : validatePacket digests r p = .ok () := by
  unfold validateRecommendation at valid
  rw [packet] at valid
  dsimp only at valid
  split at valid
  · exact (seq_eq_ok.mp valid).2
  · exact (seq_eq_ok.mp valid).2

theorem capability_of_valid (valid : validateRecommendation digests r = .ok ())
    (packet : r.completionPacket = some p) :
    p.approval.isSome = approvalRequired r.status
      ∧ p.completionIdempotencyKey.isSome = decide (r.status = .completed) := by
  have checked := validatePacket_of_valid valid packet
  unfold validatePacket at checked
  obtain ⟨-, checked⟩ := seq_eq_ok.mp checked
  split at checked
  · cases checked
  · split at checked
    · cases checked
    · next lifecycle =>
      rw [Bool.not_eq_true, Bool.or_eq_false_iff, bne_eq_false_iff_eq, bne_eq_false_iff_eq] at lifecycle
      exact lifecycle

theorem lineage_of_valid (valid : validateRecommendation digests r = .ok ())
    (packet : r.completionPacket = some p) (plain : r.redacted = false)
    {last : CompletionPacketLineage} (ends : p.lineage.getLast? = some last) :
    last.revision < p.revision := by
  have checked := validatePacket_of_valid valid packet
  unfold validatePacket at checked
  obtain ⟨checked, -⟩ := seq_eq_ok.mp checked
  rw [plain] at checked
  simp only [Bool.false_eq_true, if_false, asGraphInvariant] at checked
  cases validated : p.validate digests r.workspaceId with
  | error message =>
    rw [validated] at checked
    cases checked
  | ok _ =>
    simp only [CompletionPacket.validate, seq_eq_ok, refuse_ok] at validated
    obtain ⟨-, -, -, -, -, -, -, -, -, -, -, -, -, -, lineage, -⟩ := validated
    rw [ends, Bool.or_eq_false_iff] at lineage
    simpa using lineage.1

end valid

/-! ## The moves of a packet -/

def StoreOperation.replacing : StoreOperation → Bool
  | .replaceCompletionPacket .. => true
  | _ => false

/-- What an operation that changes a stored record does to its packet. -/
inductive PacketMove (digests : Digests) (id : String) (r r' : Recommendation) :
    StoreOperation → Prop where
  | unpacked {operation : StoreOperation} (before : r.completionPacket = none)
      (after : r'.completionPacket = none) : PacketMove digests id r r' operation
  | withdrawn {operation : StoreOperation} {p : CompletionPacket}
      (other : operation.replacing = false) (before : r.completionPacket = some p)
      (after : r'.completionPacket = some p.withoutCapability) :
      PacketMove digests id r r' operation
  | replaced {expectedRevision : Nat} {replacement p p' : CompletionPacket} {updatedAt : String}
      (before : r.completionPacket = some p) (after : r'.completionPacket = some p')
      (unapproved : p'.approval = none) (revision : p'.revision = p.revision + 1) :
      PacketMove digests id r r' (.replaceCompletionPacket id expectedRevision replacement updatedAt)
  | begun {session startedAt approver : String} {mutation : CompletionMutationRequest}
      {p : CompletionPacket} (before : r.completionPacket = some p)
      (asked : p.matchesRequest mutation = true)
      (after : r'.completionPacket = some (p.approved digests startedAt approver mutation))
      (target : r'.targetSessionId = some session) (status : r'.status = .executing) :
      PacketMove digests id r r' (.beginExecutionChecked id session startedAt mutation approver)
  | delivered {completedAt : String} {p : CompletionPacket} (before : r.completionPacket = some p)
      (after : r'.completionPacket = some p) (target : r'.targetSessionId = r.targetSessionId)
      (status : r'.status = .accepted) : PacketMove digests id r r' (.completeExecution id completedAt)
  | completed {completedAt : String} {mutation : CompletionMutationRequest} {p : CompletionPacket}
      {approval : CompletionApproval} (before : r.completionPacket = some p)
      (asked : p.matchesRequest mutation = true) (approved : p.approval = some approval)
      (key : approval.idempotencyKey = mutation.idempotencyKey)
      (after : r' = { r with
        status := .completed
        updatedAt := completedAt
        completionPacket := some
          { p with completionIdempotencyKey := some mutation.idempotencyKey } }) :
      PacketMove digests id r r' (.completeAcceptedChecked id completedAt mutation)

section moves
variable {digests : Digests} {id : String} {r r' : Recommendation}

variable {operation : StoreOperation}

theorem PacketMove.of_withoutCapability (other : operation.replacing = false)
    (after : r'.completionPacket = r.completionPacket.map (·.withoutCapability)) :
    PacketMove digests id r r' operation := by
  cases before : r.completionPacket with
  | none =>
    rw [before] at after
    exact .unpacked before after
  | some p =>
    rw [before] at after
    exact .withdrawn other before after

/-- A change that leaves the packet as it is has none to leave, when the status it moves to
asks for another capability than the status it moves from. -/
theorem PacketMove.of_lifecycle (before : validateRecommendation digests r = .ok ())
    (after : validateRecommendation digests r' = .ok ())
    (same : r'.completionPacket = r.completionPacket)
    (other : approvalRequired r'.status ≠ approvalRequired r.status
      ∨ decide (r'.status = .completed) ≠ decide (r.status = .completed)) :
    PacketMove digests id r r' operation := by
  cases packet : r.completionPacket with
  | none => exact .unpacked packet (same.trans packet)
  | some p =>
    have old := capability_of_valid before packet
    have new := capability_of_valid after (same.trans packet)
    rcases other with other | other
    · exact absurd (new.1.symm.trans old.1) other
    · exact absurd (new.2.symm.trans old.2) other

theorem replacePacketChange_move {expectedRevision : Nat} {replacement : CompletionPacket}
    {updatedAt : String}
    (changed : replacePacketChange id expectedRevision replacement updatedAt r = .ok r')
    (valid : validateRecommendation digests r' = .ok ()) :
    PacketMove digests id r r'
      (.replaceCompletionPacket id expectedRevision replacement updatedAt) := by
  obtain ⟨mutable, changed⟩ := seq_eq_ok.mp changed
  obtain ⟨-, changed⟩ := seq_eq_ok.mp changed
  have plain : r.redacted = false := by
    unfold ensureMutable at mutable
    split at mutable
    · cases mutable
    · next h => exact Bool.eq_false_iff.mpr h
  split at changed
  · cases changed
  · next old before =>
    split at changed
    · cases changed
    · next asked =>
      cases changed
      refine .replaced before rfl rfl ?_
      -- the old packet is the last of the lineage, so the revision did not saturate
      have grows : old.revision < replacement.revision :=
        lineage_of_valid valid rfl plain (List.getLast?_concat ..)
      have next : replacement.revision = saturatingSucc old.revision := by
        rw [Bool.not_eq_true, Bool.or_eq_false_iff, Bool.or_eq_false_iff, bne_eq_false_iff_eq,
          bne_eq_false_iff_eq] at asked
        exact asked.1.2
      change replacement.revision = old.revision + 1
      unfold saturatingSucc at next
      omega

variable {mutation : CompletionMutationRequest}

theorem completeAcceptedCheckedChange_some {completedAt : String}
    (changed : completeAcceptedCheckedChange id completedAt mutation r = .ok (some r')) :
    ∃ p approval, r.completionPacket = some p ∧ p.matchesRequest mutation = true
      ∧ p.approval = some approval ∧ approval.idempotencyKey = mutation.idempotencyKey
      ∧ r.status = .accepted
      ∧ r' = { r with
        status := .completed
        updatedAt := completedAt
        completionPacket := some
          { p with completionIdempotencyKey := some mutation.idempotencyKey } } := by
  obtain ⟨-, changed⟩ := seq_eq_ok.mp changed
  split at changed
  · cases changed
  · next p before =>
    split at changed
    · cases changed
    · next asked =>
      split at changed
      · split at changed <;> cases changed
      · split at changed
        · cases changed
        · next approved =>
          split at changed
          · cases changed
          · next starts =>
            cases changed
            rw [Bool.not_eq_true, Bool.not_eq_false', Option.any_eq_true] at approved
            obtain ⟨approval, there, key⟩ := approved
            rw [Bool.not_eq_true, Bool.or_eq_false_iff] at starts
            exact ⟨p, approval, before, by simpa using asked, there, by simpa using key,
              startsFrom_status starts.1, rfl⟩

theorem beginExecutionCheckedChange_move {session startedAt approver : String}
    (changed : beginExecutionCheckedChange digests id session startedAt mutation approver r = .ok r') :
    PacketMove digests id r r' (.beginExecutionChecked id session startedAt mutation approver) := by
  obtain ⟨-, changed⟩ := seq_eq_ok.mp changed
  obtain ⟨-, changed⟩ := seq_eq_ok.mp changed
  split at changed
  · cases changed
  · next p before =>
    split at changed
    · cases changed
    · next asked =>
      cases changed
      exact .begun before (by simpa using asked) rfl rfl rfl

theorem Changes.packetMove (changes : operation.Changes digests id r r')
    (before : validateRecommendation digests r = .ok ())
    (after : validateRecommendation digests r' = .ok ()) :
    PacketMove digests id r r' operation := by
  cases operation with
  | put _ => exact changes.elim
  | applyGraph _ _ => exact changes.elim
  | deleteSelected _ => exact changes.elim
  | dismiss target dismissedAt reason =>
    obtain ⟨rfl, changed⟩ := changes
    obtain ⟨-, changed⟩ := seq_eq_ok.mp changed
    obtain ⟨-, changed⟩ := seq_eq_ok.mp changed
    cases changed
    exact .of_withoutCapability rfl rfl
  | beginExecution target session startedAt =>
    obtain ⟨rfl, changed⟩ := changes
    obtain ⟨-, changed⟩ := seq_eq_ok.mp changed
    obtain ⟨starts, changed⟩ := seq_eq_ok.mp changed
    cases changed
    have proposed := startsFrom_status (forbid_ok.mp starts)
    exact .of_lifecycle before after rfl (.inl (by simp [proposed, approvalRequired]))
  | beginExecutionChecked target session startedAt mutation approver =>
    obtain ⟨rfl, changed⟩ := changes
    exact beginExecutionCheckedChange_move changed
  | completeExecution target completedAt =>
    obtain ⟨rfl, changed⟩ := changes
    obtain ⟨-, changed⟩ := seq_eq_ok.mp changed
    cases changed
    cases packet : r.completionPacket with
    | none => exact .unpacked packet rfl
    | some p => exact .delivered packet rfl rfl rfl
  | completeAccepted target completedAt =>
    obtain ⟨rfl, changed⟩ := changes
    obtain ⟨-, changed⟩ := seq_eq_ok.mp changed
    obtain ⟨starts, changed⟩ := seq_eq_ok.mp changed
    cases changed
    have accepted := startsFrom_status (forbid_ok.mp starts)
    exact .of_lifecycle before after rfl (.inr (by simp [accepted]))
  | completeAcceptedChecked target completedAt mutation =>
    obtain ⟨rfl, changed⟩ := changes
    obtain ⟨p, approval, before, asked, approved, key, -, now⟩ :=
      completeAcceptedCheckedChange_some changed
    exact .completed before asked approved key now
  | cancelExecution target cancelledAt =>
    obtain ⟨rfl, next, changed, same⟩ := changes
    obtain ⟨-, changed⟩ := seq_eq_ok.mp changed
    cases changed
    rcases same with rfl | rfl
    · exact .of_withoutCapability rfl rfl
    · exact .of_withoutCapability rfl rfl
  | replaceCompletionPacket target expectedRevision replacement updatedAt =>
    obtain ⟨rfl, changed⟩ := changes
    exact replacePacketChange_move changed after
  | recoverOrphanedExecutions live protectedIds recoveredAt =>
    obtain ⟨-, rfl⟩ := changes
    exact .of_withoutCapability rfl rfl

theorem Changes.not_completed (changes : operation.Changes digests id r r') :
    r.status ≠ .completed := by
  have started : ∀ {status : RecommendationStatus}, forbid (!startsFrom r status) = .ok () →
      status ≠ .completed → r.status ≠ .completed := by
    intro status starts other
    rw [startsFrom_status (forbid_ok.mp starts)]
    exact other
  cases operation with
  | put _ => exact changes.elim
  | applyGraph _ _ => exact changes.elim
  | deleteSelected _ => exact changes.elim
  | dismiss target dismissedAt reason =>
    obtain ⟨-, changed⟩ := seq_eq_ok.mp changes.2
    obtain ⟨allowed, -⟩ := seq_eq_ok.mp changed
    intro done
    rw [forbid_ok, done] at allowed
    simp at allowed
  | beginExecution target session startedAt =>
    obtain ⟨-, changed⟩ := seq_eq_ok.mp changes.2
    exact started (seq_eq_ok.mp changed).1 (by decide)
  | beginExecutionChecked target session startedAt mutation approver =>
    obtain ⟨-, changed⟩ := seq_eq_ok.mp changes.2
    exact started (seq_eq_ok.mp changed).1 (by decide)
  | completeExecution target completedAt => exact started (seq_eq_ok.mp changes.2).1 (by decide)
  | completeAccepted target completedAt =>
    obtain ⟨-, changed⟩ := seq_eq_ok.mp changes.2
    exact started (seq_eq_ok.mp changed).1 (by decide)
  | completeAcceptedChecked target completedAt mutation =>
    intro done
    obtain ⟨-, changed⟩ := seq_eq_ok.mp changes.2
    split at changed
    · cases changed
    · split at changed
      · cases changed
      · rw [done] at changed
        simp only [beq_self_eq_true, if_true] at changed
        split at changed <;> cases changed
  | cancelExecution target cancelledAt =>
    obtain ⟨-, next, changed, -⟩ := changes
    exact started (seq_eq_ok.mp changed).1 (by decide)
  | replaceCompletionPacket target expectedRevision replacement updatedAt =>
    obtain ⟨-, changed⟩ := seq_eq_ok.mp changes.2
    obtain ⟨allowed, -⟩ := seq_eq_ok.mp changed
    intro done
    rw [forbid_ok, done] at allowed
    simp at allowed
  | recoverOrphanedExecutions live protectedIds recoveredAt =>
    intro done
    obtain ⟨orphan, -⟩ := changes
    unfold orphaned at orphan
    split at orphan
    · cases orphan
    · simp [done] at orphan

end moves

/-! ## Runs -/

/-- One operation with the records before and after it. -/
structure Event where
  operation : StoreOperation
  before : Records
  after : Records

/-- A step of the store, with any arguments. -/
def Performs (digests : Digests) (records : Records) (event : Event) (next : Records) : Prop :=
  event.before = records ∧ event.after = next ∧ next = event.operation.perform digests records

/-- A step in which `put` and graph transactions write records with safe file names: the
rollback of a graph that is not valid is then never refused. -/
def Safely (digests : Digests) (records : Records) (event : Event) (next : Records) : Prop :=
  Performs digests records event next
    ∧ ∀ r ∈ event.operation.written, validId r.id = true

/-- What a record written from outside leaves alone: the revision of the packet it replaces,
and the reservation; it brings no approval and no completion that is not there already. -/
structure Respects (stored : Option Recommendation) (r : Recommendation) : Prop where
  revision : ∀ old packet, stored = some old → old.completionPacket = some packet →
    ∃ p, r.completionPacket = some p ∧ p.revision = packet.revision
  approval : ∀ p approval, r.completionPacket = some p → p.approval = some approval →
    ∃ old packet, stored = some old ∧ old.completionPacket = some packet
      ∧ packet.approval = some approval ∧ packet.evidenceFingerprint = p.evidenceFingerprint
  completed : r.completionPacket.isSome → r.status = .completed →
    ∃ old, stored = some old ∧ old.status = .completed

/-- A step in which `put` and graph transactions also leave the packets of the protocol
alone. -/
def Guarded (digests : Digests) (records : Records) (event : Event) (next : Records) : Prop :=
  Safely digests records event next
    ∧ ∀ r ∈ event.operation.written, Respects records[r.id]? r

/-- The operations that take an approval back or give a new one. -/
def StoreOperation.revokes : StoreOperation → Bool
  | .dismiss .. | .beginExecution .. | .beginExecutionChecked .. | .cancelExecution ..
  | .replaceCompletionPacket .. | .recoverOrphanedExecutions .. => true
  | _ => false

/-- The event took the approval of this record back, or began it again. -/
def Revokes (id : String) (event : Event) : Prop :=
  event.operation.revokes = true ∧ event.after[id]? ≠ event.before[id]?

/-- The event is a `begin_execution_checked` that reserved the record for this request. -/
def Approves (id : String) (request : CompletionMutationRequest) (_ : List Event) (_ : Records)
    (event : Event) (_ : Records) : Prop :=
  (∃ session startedAt approver,
      event.operation = .beginExecutionChecked id session startedAt request approver)
    ∧ ∃ r p, event.after[id]? = some r ∧ r.status = .executing ∧ r.completionPacket = some p
      ∧ p.revision = request.packetRevision ∧ p.evidenceFingerprint = request.evidenceFingerprint
      ∧ p.approval.map (·.idempotencyKey) = some request.idempotencyKey

/-- Whenever a record with a packet becomes completed, it does so through a completion call,
and the request of that call was approved by the last `begin_execution_checked`, which
nothing revoked since. -/
def CompletionsApproved (step : Records → Event → Records → Prop) : Prop :=
  ∀ (events : List Event) (s : Records) (event : Event) (t : Records) (id : String)
    (r : Recommendation) (p : CompletionPacket),
    Run step ∅ events s → step s event t → t[id]? = some r → r.completionPacket = some p →
    r.status = .completed → (∀ old, s[id]? = some old → old.status ≠ .completed) →
      ∃ completedAt request, event.operation = .completeAcceptedChecked id completedAt request
        ∧ p.revision = request.packetRevision
        ∧ p.evidenceFingerprint = request.evidenceFingerprint
        ∧ p.completionIdempotencyKey = some request.idempotencyKey
        ∧ Occurred step ∅ (Revokes id) (Approves id request) events

/-- The event puts the record anew or removes it. -/
def WrittenAnew (id : String) (event : Event) : Prop :=
  (∃ given, event.operation = .put given ∧ given.id = id) ∨ event.after[id]? = none

/-- A completion call that returned is answered in the same way again, and one with another
key is refused, as long as the record is not rewritten and the store can be read; neither
changes anything. -/
def RetriesAnswered (digests : Digests) : Prop :=
  ∀ (events later : List Event) (s t u : Records) (id completedAt again : String)
    (request : CompletionMutationRequest) (r : Recommendation),
    Run (Safely digests) ∅ events s →
    completeAcceptedCheckedResult digests id completedAt request s = .ok (some r, t) →
    Run (Safely digests) t later u → (∀ event ∈ later, ¬ WrittenAnew id event) →
    validateGraphRecords digests (values u) = .ok () →
      completeAcceptedCheckedResult digests id again request u = .ok (some r, u)
      ∧ ∀ other : CompletionMutationRequest, other.idempotencyKey ≠ request.idempotencyKey →
        (∃ error, completeAcceptedCheckedResult digests id again other u = .error error)
        ∧ (StoreOperation.completeAcceptedChecked id again other).perform digests u = u

/-- The event replaced the packet of this record. -/
def Replaces (id : String) (event : Event) : Bool :=
  match event.operation with
  | .replaceCompletionPacket target .. => target == id && event.after[id]? != event.before[id]?
  | _ => false

/-- Every replacement of a record's packet makes its revision greater by one, and nothing else
changes it. -/
def RevisionsIncrease (digests : Digests) : Prop :=
  ∀ (events later : List Event) (s t : Records) (id : String) (r : Recommendation)
    (p : CompletionPacket),
    Run (Guarded digests) ∅ events s → s[id]? = some r → r.completionPacket = some p →
    Run (Guarded digests) s later t → (∀ event ∈ later, event.after[id]? ≠ none) →
      ∃ r' p', t[id]? = some r' ∧ r'.completionPacket = some p'
        ∧ p'.revision = p.revision + later.countP (Replaces id)

section runs
variable {digests : Digests} {s t : Records} {event : Event}

variable {id : String} {r : Recommendation} {p : CompletionPacket}

variable {operation : StoreOperation}

/-- The records are stored under their ids and valid. -/
structure Sound (digests : Digests) (records : Records) : Prop where
  keyed : Keyed records
  valid : ∀ (id : String) (r : Recommendation), records[id]? = some r →
    validateRecommendation digests r = .ok ()

theorem sound_empty : Sound digests ∅ := by
  constructor
  · intro id r stored
    rw [get_empty] at stored
    cases stored
  · intro id r stored
    rw [get_empty] at stored
    cases stored

theorem Performs.turns (step : Performs digests s event t) (sound : Sound digests s) (id : String) :
    Turns digests s id event.operation t[id]? := by
  rw [step.2.2]
  exact perform_turns sound.keyed event.operation id

theorem Performs.sound (step : Performs digests s event t) (sound : Sound digests s) :
    Sound digests t := by
  have now : ∀ (id : String) (r : Recommendation), t[id]? = some r →
      r.id = id ∧ validateRecommendation digests r = .ok () := by
    intro id r stored
    have turns := step.turns sound id
    rw [stored] at turns
    generalize same : some r = new at turns
    cases turns with
    | kept => exact ⟨sound.keyed id r same.symm, sound.valid id r same.symm⟩
    | written _ keyed valid _ =>
      cases same
      exact ⟨keyed, valid⟩
    | changed _ _ keyed _ valid =>
      cases same
      exact ⟨keyed, valid⟩
    | removed _ => cases same
  exact ⟨fun id r stored => (now id r stored).1, fun id r stored => (now id r stored).2⟩

variable {events : List Event}

variable {init : Records}

theorem run_sound (sound : Sound digests init) (run : Run (Performs digests) init events s) :
    Sound digests s :=
  run.invariant (Sound digests) sound (fun sound step => step.sound sound)

theorem Guarded.performs (step : Guarded digests s event t) : Performs digests s event t := step.1.1

theorem safe_run_sound (sound : Sound digests init) (run : Run (Safely digests) init events s) :
    Sound digests s :=
  run_sound sound (run.mono (fun step => step.1))

theorem guarded_run_sound (sound : Sound digests init) (run : Run (Guarded digests) init events s) :
    Sound digests s :=
  run_sound sound (run.mono (fun step => step.performs))

theorem written_not_revokes (member : r ∈ operation.written) : operation.revokes = false := by
  cases operation with
  | put _ => rfl
  | applyGraph _ _ => rfl
  | _ => cases member

/-! ## Approvals stand -/

/-- Every approval in the store was given by a `begin_execution_checked` for this revision,
fingerprint and key that nothing revoked. -/
def Approvals (digests : Digests) (events : List Event) (records : Records) : Prop :=
  ∀ (id : String) (r : Recommendation) (p : CompletionPacket) (approval : CompletionApproval),
    records[id]? = some r → r.completionPacket = some p → p.approval = some approval →
      Occurred (Guarded digests) ∅ (Revokes id)
        (Approves id ⟨p.revision, p.evidenceFingerprint, approval.idempotencyKey⟩) events

variable {approval : CompletionApproval}

theorem Approvals.written (approvals : Approvals digests events s)
    (step : Guarded digests s event t) {r : Recommendation} (member : r ∈ event.operation.written)
    {p : CompletionPacket} (packet : r.completionPacket = some p)
    (approved : p.approval = some approval) : Occurred (Guarded digests) ∅ (Revokes r.id)
      (Approves r.id ⟨p.revision, p.evidenceFingerprint, approval.idempotencyKey⟩)
      (event :: events) := by
  have respects := step.2 r member
  obtain ⟨old, packet', stored, before, given, fingerprint⟩ := respects.approval p approval packet approved
  obtain ⟨p', same, revision⟩ := respects.revision old packet' stored before
  rw [packet, Option.some.injEq] at same
  subst same
  rw [revision, ← fingerprint]
  refine (approvals r.id old packet' approval stored before given).later ?_
  rintro ⟨revokes, -⟩
  rw [written_not_revokes member] at revokes
  cases revokes

theorem Approvals.moved (approvals : Approvals digests events s)
    (run : Run (Guarded digests) ∅ events s) (step : Guarded digests s event t)
    {r' : Recommendation} (before : s[id]? = some r) (after : t[id]? = some r')
    (move : PacketMove digests id r r' event.operation) (packet : r'.completionPacket = some p)
    (approved : p.approval = some approval) :
    Occurred (Guarded digests) ∅ (Revokes id)
      (Approves id ⟨p.revision, p.evidenceFingerprint, approval.idempotencyKey⟩)
      (event :: events) := by
  generalize operation : event.operation = op at move
  cases move with
  | unpacked _ none_ =>
    rw [none_] at packet
    cases packet
  | withdrawn _ _ now =>
    rw [now] at packet
    cases packet
    cases approved
  | replaced _ now unapproved _ =>
    rw [now] at packet
    cases packet
    rw [unapproved] at approved
    cases approved
  | @begun session startedAt approver mutation old stored asked now target status =>
    rw [now] at packet
    cases packet
    cases approved
    simp only [CompletionPacket.matchesRequest, Bool.and_eq_true, beq_iff_eq] at asked
    have request : (⟨old.revision, old.evidenceFingerprint, mutation.idempotencyKey⟩
        : CompletionMutationRequest) = mutation := by
      rw [asked.1, asked.2]
    refine .here run step ?_
    change Approves id ⟨old.revision, old.evidenceFingerprint, mutation.idempotencyKey⟩ _ _ _ _
    rw [request]
    refine ⟨⟨session, startedAt, approver, operation⟩, r', _, ?_, status, now, asked.1, asked.2, rfl⟩
    rw [step.performs.2.1]
    exact after
  | delivered stored now _ _ =>
    rw [now] at packet
    cases packet
    refine (approvals id r p approval before stored approved).later ?_
    rintro ⟨revokes, -⟩
    rw [operation] at revokes
    cases revokes
  | @completed completedAt mutation old _ stored _ _ _ now =>
    subst now
    cases packet
    refine (approvals id r old approval before stored approved).later ?_
    rintro ⟨revokes, -⟩
    rw [operation] at revokes
    cases revokes

theorem Approvals.step (run : Run (Guarded digests) ∅ events s)
    (approvals : Approvals digests events s) (step : Guarded digests s event t) :
    Approvals digests (event :: events) t := by
  intro id r p approval stored packet approved
  have sound := guarded_run_sound sound_empty run
  have turns := step.performs.turns sound id
  have now := stored
  rw [stored] at turns
  generalize same : some r = new at turns
  cases turns with
  | kept =>
    refine (approvals id r p approval same.symm packet approved).later ?_
    rintro ⟨-, changed⟩
    rw [step.performs.1, step.performs.2.1, stored, ← same] at changed
    exact changed rfl
  | written member keyed _ _ =>
    cases same
    subst keyed
    exact approvals.written step member packet approved
  | changed before changes _ _ valid =>
    cases same
    have move := Changes.packetMove changes (sound.valid id _ before) valid
    exact approvals.moved run step before now move packet approved
  | removed _ => cases same

theorem run_approvals (run : Run (Guarded digests) ∅ events s) : Approvals digests events s := by
  refine run.history (Approvals digests) ?_ (fun run approvals step => approvals.step run step)
  intro id r p approval stored
  rw [get_empty] at stored
  cases stored

theorem completions_approved : CompletionsApproved (Guarded digests) := by
  intro events s event t id r p run step stored packet done fresh
  have sound := guarded_run_sound sound_empty run
  have approvals := run_approvals run
  have turns := step.performs.turns sound id
  rw [stored] at turns
  generalize same : some r = new at turns
  cases turns with
  | kept => exact absurd done (fresh r same.symm)
  | written member keyed _ _ =>
    cases same
    subst keyed
    obtain ⟨old, there, completed⟩ := (step.2 r member).completed (by rw [packet]; rfl) done
    exact absurd completed (fresh old there)
  | @changed old _ before changes _ _ valid =>
    cases same
    have capability := capability_of_valid valid packet
    rw [done] at capability
    have move := Changes.packetMove changes (sound.valid id _ before) valid
    generalize operation : event.operation = op at move
    cases move with
    | unpacked _ none_ =>
      rw [none_] at packet
      cases packet
    | withdrawn _ _ now =>
      rw [now] at packet
      cases packet
      cases capability.1
    | replaced _ now unapproved _ =>
      rw [now] at packet
      cases packet
      rw [unapproved] at capability
      cases capability.1
    | begun _ _ _ _ status =>
      rw [done] at status
      cases status
    | delivered _ _ _ status =>
      rw [done] at status
      cases status
    | @completed completedAt mutation q approval was asked approved key now =>
      subst now
      cases packet
      simp only [CompletionPacket.matchesRequest, Bool.and_eq_true, beq_iff_eq] at asked
      have request : (⟨q.revision, q.evidenceFingerprint, approval.idempotencyKey⟩
          : CompletionMutationRequest) = mutation := by
        rw [asked.1, asked.2, key]
      have standing := approvals id old q approval before was approved
      rw [request] at standing
      exact ⟨completedAt, mutation, rfl, asked.1, asked.2, rfl, standing⟩
  | removed _ => cases same

/-! ## Retries -/

/-- A completion call returned this record: it is stored, completed, and carries the key. -/
structure Finished (id : String) (request : CompletionMutationRequest) (r : Recommendation) : Prop where
  safe : validId id = true
  asked : asGraphInvariant request.validate = .ok ()
  status : r.status = .completed
  mutable : ensureMutableUnless (r.redacted && (r.status == .accepted || r.status == .completed)
    && r.targetSessionId.isSome) r = .ok ()
  packet : ∃ p, r.completionPacket = some p ∧ p.matchesRequest request = true
    ∧ p.completionIdempotencyKey = some request.idempotencyKey

variable {request : CompletionMutationRequest}

variable {completedAt : String}

section
variable {r : Recommendation}

theorem completed_finished
    (answered : completeAcceptedCheckedResult digests id completedAt request s = .ok (some r, t)) :
    Finished id request r := by
  obtain ⟨asked, answered⟩ := seq_eq_ok.mp answered
  obtain ⟨-, ⟨-, absent⟩ | ⟨old, safe, stored, answered⟩⟩ := onFound_ok.mp answered
  · cases absent
  · obtain ⟨changed, hchanged, answered⟩ := bind_eq_ok.mp answered
    obtain ⟨mutable, rest⟩ := seq_eq_ok.mp hchanged
    cases changed with
    | none =>
      -- the call was itself a retry
      cases answered
      split at rest
      · cases rest
      · next p packet =>
        split at rest
        · cases rest
        · next matched =>
          split at rest
          · next done =>
            split at rest
            · next key =>
              exact ⟨safe, asked, by simpa using done, mutable, p, packet, by simpa using matched,
                by simpa using key⟩
            · cases rest
          · split at rest
            · cases rest
            · split at rest <;> cases rest
    | some next =>
      obtain ⟨after, put, answered⟩ := bind_eq_ok.mp answered
      cases answered
      obtain ⟨p, approval, before, matched, -, -, accepted, rfl⟩ :=
        completeAcceptedCheckedChange_some hchanged
      refine ⟨safe, asked, rfl, ?_, _, rfl, matched, rfl⟩
      rw [accepted] at mutable
      exact mutable

variable {again : String}

theorem Finished.answers (finished : Finished id request r) (stored : s[id]? = some r)
    (readable : readRecords digests s = .ok ()) :
    completeAcceptedCheckedResult digests id again request s = .ok (some r, s) := by
  obtain ⟨p, packet, matched, key⟩ := finished.packet
  have unchanged : completeAcceptedCheckedChange id again request r = .ok none := by
    unfold completeAcceptedCheckedChange
    refine seq_eq_ok.mpr ⟨finished.mutable, ?_⟩
    simp [packet, matched, finished.status, key]
  refine seq_eq_ok.mpr ⟨finished.asked, onFound_ok.mpr ⟨readable, .inr ⟨r, finished.safe, stored, ?_⟩⟩⟩
  exact bind_eq_ok.mpr ⟨none, unchanged, rfl⟩

theorem Finished.refuses {other : CompletionMutationRequest} (finished : Finished id request r)
    (stored : s[id]? = some r) (differs : other.idempotencyKey ≠ request.idempotencyKey) :
    ∃ error, completeAcceptedCheckedResult digests id again other s = .error error := by
  obtain ⟨p, packet, matched, key⟩ := finished.packet
  have refused : ∀ changed, completeAcceptedCheckedChange id again other r ≠ .ok changed := by
    intro changed answered
    obtain ⟨-, answered⟩ := seq_eq_ok.mp answered
    rw [packet] at answered
    dsimp only at answered
    split at answered
    · cases answered
    · rw [finished.status, key] at answered
      simp [Ne.symm differs] at answered
  cases answered : completeAcceptedCheckedResult digests id again other s with
  | error e => exact ⟨e, rfl⟩
  | ok answer =>
    exfalso
    obtain ⟨-, ⟨missing, -⟩ | ⟨old, -, there, answered⟩⟩ := onFound_ok.mp (seq_eq_ok.mp answered).2
    · simp [finished.safe, stored] at missing
    · cases stored.symm.trans there
      obtain ⟨changed, hchanged, -⟩ := bind_eq_ok.mp answered
      exact refused changed hchanged

theorem Performs.completed_stays (step : Performs digests s event t) (sound : Sound digests s)
    (stored : s[id]? = some r) (done : r.status = .completed)
    (kept : ¬ WrittenAnew id event) : t[id]? = some r := by
  have turns := step.turns sound id
  generalize same : t[id]? = new at turns
  cases turns with
  | kept => exact stored
  | written member keyed _ final =>
    rcases final with ⟨given, put⟩ | final
    · rw [put] at member
      cases mem_singleton.mp member
      exact absurd (.inl ⟨_, put, keyed⟩) kept
    · rw [final r stored (by rw [done]; rfl)]
  | changed before changes =>
    rw [stored, Option.some.injEq] at before
    subst before
    exact absurd done (Changes.not_completed changes)
  | removed _ =>
    refine absurd (.inr ?_) kept
    rw [step.2.1, same]

theorem run_completed_stays {later : List Event} {u : Records} (sound : Sound digests s)
    (run : Run (Safely digests) s later u) (stored : s[id]? = some r) (done : r.status = .completed)
    (kept : ∀ event ∈ later, ¬ WrittenAnew id event) : u[id]? = some r := by
  induction run with
  | start => exact stored
  | next before step ih =>
    have there := ih (fun event member => kept event (mem_cons_of_mem _ member))
    exact step.1.completed_stays (safe_run_sound sound before) there done (kept _ mem_cons_self)

theorem completed_stored (sound : Sound digests s)
    (answered : completeAcceptedCheckedResult digests id completedAt request s = .ok (some r, t)) :
    t[id]? = some r := by
  obtain ⟨-, ⟨-, absent⟩ | ⟨old, -, stored, answered⟩⟩ := onFound_ok.mp (seq_eq_ok.mp answered).2
  · cases absent
  · obtain ⟨changed, hchanged, answered⟩ := bind_eq_ok.mp answered
    cases changed with
    | none =>
      cases answered
      exact stored
    | some next =>
      obtain ⟨after, put, answered⟩ := bind_eq_ok.mp answered
      cases answered
      obtain ⟨-, rfl⟩ := putResult_ok.mp put
      obtain ⟨p, approval, -, -, -, -, -, rfl⟩ := completeAcceptedCheckedChange_some hchanged
      have same : old.id = id := sound.keyed id old stored
      rw [get_insert, if_pos same]

end

theorem retries_answered : RetriesAnswered digests := by
  intro events later s t u id completedAt again request r run answered rest kept readable
  have sound : Sound digests s := safe_run_sound sound_empty run
  have finished := completed_finished answered
  have after : Sound digests t := by
    have performed : Performs digests s ⟨.completeAcceptedChecked id completedAt request, s, t⟩ t := by
      refine ⟨rfl, rfl, ?_⟩
      simp [StoreOperation.perform, StoreOperation.result, answered, orElseKeep, Except.map]
    exact performed.sound sound
  have stored := run_completed_stays after rest (completed_stored sound answered) finished.status kept
  have valid := (safe_run_sound after rest).valid
  have read : readRecords digests u = .ok () := by
    refine seq_eq_ok.mpr ⟨validateEach_ok.mpr fun x member => ?_, readable⟩
    obtain ⟨key, there⟩ := mem_values.mp member
    exact valid key x there
  refine ⟨finished.answers stored read, fun other differs => ?_⟩
  obtain ⟨error, refused⟩ := finished.refuses stored differs
  refine ⟨⟨error, refused⟩, ?_⟩
  simp [StoreOperation.perform, StoreOperation.result, refused, orElseKeep, Except.map]

/-! ## Revisions -/

theorem PacketMove.revision {r' : Recommendation} (move : PacketMove digests id r r' operation)
    (packet : r.completionPacket = some p) :
    ∃ p', r'.completionPacket = some p'
      ∧ p'.revision = p.revision + if operation.replacing then 1 else 0 := by
  cases move with
  | unpacked none_ _ =>
    rw [none_] at packet
    cases packet
  | withdrawn other before after =>
    rw [before] at packet
    cases packet
    exact ⟨_, after, by rw [other]; rfl⟩
  | replaced before after _ revision =>
    rw [before] at packet
    cases packet
    exact ⟨_, after, revision⟩
  | begun before _ after _ _ =>
    rw [before] at packet
    cases packet
    exact ⟨_, after, rfl⟩
  | delivered before after _ _ =>
    rw [before] at packet
    cases packet
    exact ⟨_, after, rfl⟩
  | completed before _ _ _ after =>
    rw [before] at packet
    cases packet
    subst after
    exact ⟨_, rfl, rfl⟩

theorem replaces_of_same (same : event.after[id]? = event.before[id]?) :
    Replaces id event = false := by
  unfold Replaces
  split
  · simp [same]
  · rfl

theorem replaces_of_not_replacing (other : event.operation.replacing = false) :
    Replaces id event = false := by
  unfold Replaces
  split
  · next operation =>
    rw [operation] at other
    cases other
  · rfl

theorem Guarded.revision (step : Guarded digests s event t) (sound : Sound digests s)
    (stored : s[id]? = some r) (packet : r.completionPacket = some p)
    (present : event.after[id]? ≠ none) :
    ∃ r' p', t[id]? = some r' ∧ r'.completionPacket = some p'
      ∧ p'.revision = p.revision + if Replaces id event then 1 else 0 := by
  have turns := step.performs.turns sound id
  rw [step.performs.2.1] at present
  generalize same : t[id]? = new at turns
  cases turns with
  | kept =>
    have none_ : Replaces id event = false := replaces_of_same (by rw [step.performs.1, step.performs.2.1, same])
    exact ⟨r, p, stored, packet, by rw [none_]; rfl⟩
  | @written r' member keyed _ _ =>
    subst keyed
    obtain ⟨p', now, revision⟩ := (step.2 r' member).revision r p stored packet
    have none_ : Replaces r'.id event = false := by
      refine replaces_of_not_replacing ?_
      generalize event.operation = operation at member
      cases operation with
      | replaceCompletionPacket _ _ _ _ => cases member
      | _ => rfl
    exact ⟨r', p', rfl, now, by rw [none_, revision]; rfl⟩
  | @changed old r' before changes _ _ valid =>
    rw [stored, Option.some.injEq] at before
    subst before
    have move := Changes.packetMove changes (sound.valid id r stored) valid
    obtain ⟨p', now, revision⟩ := move.revision packet
    refine ⟨r', p', rfl, now, ?_⟩
    cases replacing : event.operation.replacing with
    | false => rw [revision, replacing, replaces_of_not_replacing replacing]
    | true =>
      -- the operation is a replacement of this record's packet, and it changed it
      rw [replacing] at revision
      have replaces : Replaces id event = true := by
        unfold Replaces
        generalize event.operation = operation at changes replacing
        cases operation with
        | replaceCompletionPacket target expectedRevision replacement updatedAt =>
          obtain ⟨rfl, -⟩ := changes
          rw [step.performs.1, step.performs.2.1, same, stored]
          have differs : r' ≠ r := by
            rintro rfl
            rw [now, Option.some.injEq] at packet
            subst packet
            simp at revision
          simp [differs]
        | _ => cases replacing
      rw [revision, replaces]
  | removed _ => exact absurd same present

theorem revisions_increase : RevisionsIncrease digests := by
  intro events later s t id r p run stored packet rest present
  have sound : Sound digests s := guarded_run_sound sound_empty run
  induction rest with
  | start => exact ⟨r, p, stored, packet, rfl⟩
  | @next earlier u v event before step ih =>
    obtain ⟨r', p', there, packet', revision⟩ :=
      ih (fun event member => present event (mem_cons_of_mem _ member))
    obtain ⟨r'', p'', now, packet'', grown⟩ :=
      step.revision (guarded_run_sound sound before) there packet' (present event mem_cons_self)
    refine ⟨r'', p'', now, packet'', ?_⟩
    rw [grown, revision, countP_cons, Nat.add_assoc]

end runs

/-- In every run whose `put`s and graph transactions leave the protocol's packets alone: a
record with a packet is completed only by a completion call that the latest
`begin_execution_checked` approved, completion calls are idempotent by their key, and the
revisions of a record's packets grow with every replacement. -/
theorem approval_protocol (digests : Digests) :
    CompletionsApproved (Guarded digests) ∧ RetriesAnswered digests ∧ RevisionsIncrease digests :=
  ⟨completions_approved, retries_answered, revisions_increase⟩

open Sample

example :
    let request : CompletionMutationRequest := ⟨1, packet.evidenceFingerprint, "key"⟩
    let id := packetCard.id
    let calls : List StoreOperation :=
      [.put packetCard, .beginExecutionChecked id "t" "2026-01-01T00:00:02Z" request "user",
        .completeExecution id "2026-01-01T00:00:03Z",
        .completeAcceptedChecked id "2026-01-01T00:00:04Z" request]
    ((calls.foldl (fun records call => call.perform evaluatorDigests records) ∅)[id]?).map
      (·.status) = some .completed := by decide +kernel

namespace Sample

def completedPacket : CompletionPacket :=
  { packet.approved evaluatorDigests "2026-01-01T00:00:02Z" "user"
      ⟨1, packet.evidenceFingerprint, "key"⟩ with completionIdempotencyKey := some "key" }

def completedCard : Recommendation :=
  { packetCard with
    status := .completed
    completionPacket := some completedPacket }

end Sample

/-- `put` stores a completed record that no call has completed. -/
theorem put_completes : ¬ CompletionsApproved (Performs evaluatorDigests) := by
  intro approved
  have valid : validateRecommendation evaluatorDigests completedCard = .ok () := by
    decide +kernel
  have stored : (StoreOperation.put completedCard).perform evaluatorDigests ∅
      = (∅ : Records).insert completedCard.id completedCard := by
    simp [StoreOperation.perform, StoreOperation.result, putResult_ok.mpr ⟨valid, rfl⟩, orElseKeep]
  obtain ⟨completedAt, request, operation, -⟩ := approved [] ∅
    ⟨.put completedCard, ∅, _⟩ _ completedCard.id completedCard
    completedPacket .start ⟨rfl, rfl, stored.symm⟩ get_insert_self rfl rfl
    (fun old there => by rw [get_empty] at there; cases there)
  cases operation

end Orkworksd.Taskmaster
