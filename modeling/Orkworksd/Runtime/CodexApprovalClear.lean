import Orkworksd.Runtime.CodexApproval

/- Clear authority of the approval reducer is sound.

   The reducer keeps about a dozen fields and forgets how they came about. The
   proof keeps what they stand for beside it: an `Evidence` says which tool ids
   had a `PreToolUse`, which candidates were opened, saw their pending edge, were
   resolved or shown, and which observations were complete. `Core E r` says that
   every flag of `r` is backed by `E`, and each method has one lemma that it keeps
   `Core`, given the evidence the method itself produces. `evidence` then reads
   `E` off the run: every entry is a step of the run since the last reset, and
   `reachable_inv` is the induction over it.

   Main result: `clear_authority_sound`. -/
namespace Orkworksd.CodexApproval
open Lib List

variable {r : ApprovalReducer} {now : Instant}

/-- What the fields of a reducer stand for. -/
structure Evidence where
  pre : String → Prop
  opened : CandidateId → String → Prop
  pending : CandidateId → String → Prop
  resolved : CandidateId → String → Prop
  shown : CandidateId → Fence → Prop
  observed : Observation → Prop

structure Record.Backed (E : Evidence) (record : Record) : Prop where
  toolId : ∀ id, record.toolId = some id → id ≠ ""
  pre : record.hasPre = true → ∀ id, record.toolId = some id → E.pre id
  candidate : ∀ c, record.candidate = some c → c.eligible = true →
    ∃ id, record.toolId = some id ∧ E.opened c.id id ∧
      (c.sawPendingEdge = true → E.pending c.id id)

structure Core (E : Evidence) (r : ApprovalReducer) : Prop where
  records : ∀ record ∈ r.records, record.Backed E
  shown : ∀ wait, r.wait = some wait → wait.shown = true → E.shown wait.candidate r.fence
  observed : ∀ o, r.observation = some o → E.observed o
  pendingClear : ∀ effect, r.pendingClear = some effect → r.locked = false ∧
    ∃ wait id, r.wait = some wait ∧ wait.shown = true ∧ id ≠ "" ∧
      effect = .clearWait wait.candidate r.fence ∧ E.opened wait.candidate id ∧
      E.resolved wait.candidate id

/-- An issued clear is the pending one, and the retained observation is fresh at
the reducer's clock. -/
def IssuedClear (r : ApprovalReducer) : Prop :=
  ∀ c f, r.issued = some (.clearWait c f) → r.pendingClear = some (.clearWait c f) ∧
    ∃ now, r.clock = some now ∧ r.hasFresh now = true

structure Inv (E : Evidence) (r : ApprovalReducer) : Prop where
  core : Core E r
  issued : IssuedClear r

namespace ApprovalReducer

/-! ## What the private methods leave alone -/

section frame
variable (r : ApprovalReducer)

@[simp] theorem lock_fence : r.lock.fence = r.fence := rfl
@[simp] theorem lock_wait : r.lock.wait = r.wait := rfl
@[simp] theorem lock_observation : r.lock.observation = r.observation := rfl
@[simp] theorem lock_clock : r.lock.clock = r.clock := rfl
@[simp] theorem lock_issued : r.lock.issued = r.issued := rfl
@[simp] theorem lock_locked : r.lock.locked = true := rfl
@[simp] theorem lock_pendingClear : r.lock.pendingClear = none := rfl
@[simp] theorem lock_nextCandidate : r.lock.nextCandidate = r.nextCandidate := rfl

variable (condition : Bool)

@[simp] theorem lockIf_fence : (r.lockIf condition).fence = r.fence := by
  cases condition <;> rfl
@[simp] theorem lockIf_wait : (r.lockIf condition).wait = r.wait := by
  cases condition <;> rfl
@[simp] theorem lockIf_observation : (r.lockIf condition).observation = r.observation := by
  cases condition <;> rfl
@[simp] theorem lockIf_clock : (r.lockIf condition).clock = r.clock := by
  cases condition <;> rfl
@[simp] theorem lockIf_issued : (r.lockIf condition).issued = r.issued := by
  cases condition <;> rfl
@[simp] theorem lockIf_nextCandidate : (r.lockIf condition).nextCandidate = r.nextCandidate := by
  cases condition <;> rfl

theorem lockIf_unlocked {r : ApprovalReducer} {condition : Bool}
    (h : (r.lockIf condition).locked = false) :
    condition = false ∧ r.lockIf condition = r ∧ r.locked = false := by
  cases condition with
  | false => exact ⟨rfl, rfl, h⟩
  | true => simp [lockIf] at h

end frame

theorem advanceClock_unlocked (h : (r.advanceClock now).1.locked = false) :
    (r.advanceClock now).1 = { r with clock := some now } ∧ (r.advanceClock now).2 = true := by
  unfold advanceClock at h ⊢
  split
  · rename_i hlt; simp [hlt] at h
  · exact ⟨rfl, rfl⟩

theorem advanceClock_clock
    (h : (r.advanceClock now).2 = true) : (r.advanceClock now).1.clock = some now := by
  unfold advanceClock at h ⊢
  split
  · rename_i hlt; simp [hlt] at h
  · rfl

@[simp] theorem advanceClock_fence (r : ApprovalReducer) (now : Instant) :
    (r.advanceClock now).1.fence = r.fence := by
  unfold advanceClock; split <;> rfl

@[simp] theorem advanceClock_issued (r : ApprovalReducer) (now : Instant) :
    (r.advanceClock now).1.issued = r.issued := by
  unfold advanceClock; split <;> rfl

@[simp] theorem addRecord_issued (r : ApprovalReducer) (toolId : Option String)
    (hasPre completed : Bool) : (r.addRecord toolId hasPre completed).1.issued = r.issued := by
  unfold addRecord; split <;> rfl

@[simp] theorem pre_issued (r : ApprovalReducer) (toolId : Option String) :
    (r.pre toolId).issued = r.issued := by
  unfold pre
  simp only
  split
  · rfl
  · simp

@[simp] theorem permissionRecord_issued (r : ApprovalReducer) (toolId : Option String) :
    (r.permissionRecord toolId).1.issued = r.issued := by
  unfold permissionRecord
  split
  · split
    · simp
    · split <;> simp
  · split
    · rfl
    · split <;> simp

@[simp] theorem setCandidate_issued (r : ApprovalReducer) (index : Option Nat)
    (candidate : Candidate) : (r.setCandidate index candidate).issued = r.issued := by
  cases index <;> rfl

@[simp] theorem openCandidate_issued (r : ApprovalReducer) (index : Option Nat) (now : Instant) :
    (r.openCandidate index now).issued = r.issued := by
  unfold openCandidate
  simp only
  split
  · simp
  · split <;> simp

@[simp] theorem permission_issued (r : ApprovalReducer) (toolId : Option String)
    (now : Instant) : (r.permission toolId now).issued = r.issued := by
  unfold permission
  simp only
  split <;> simp

theorem displayDue_cases (r : ApprovalReducer) (now : Instant) :
    r.displayDue now = (r, []) ∨
    ∃ c f, r.displayDue now = ({ r with issued := some (.showWait c f) }, [.showWait c f]) := by
  unfold displayDue
  split
  · exact .inl rfl
  · split
    · exact .inl rfl
    · split
      · exact .inl rfl
      · exact .inr ⟨_, _, rfl⟩

end ApprovalReducer

open ApprovalReducer

/-! ## The backing is kept, method by method -/

section core
variable {E : Evidence} {r : ApprovalReducer}

variable {effect : Effect}

variable {previous : Option NativeStatus}

theorem Record.Backed.revoke {record : Record} (h : record.Backed E) :
    record.revoke.Backed E where
  toolId := h.toolId
  pre := h.pre
  candidate := by
    intro c hc helig
    simp only [Record.revoke, Option.map_eq_some_iff] at hc
    obtain ⟨c', -, rfl⟩ := hc
    simp at helig

theorem core_lock (h : Core E r) : Core E r.lock where
  records := by
    intro record hmem
    obtain ⟨old, hold, rfl⟩ := mem_map.mp hmem
    exact (h.records old hold).revoke
  shown := h.shown
  observed := h.observed
  pendingClear := by simp

theorem core_lockIf (h : Core E r) (condition : Bool) : Core E (r.lockIf condition) := by
  cases condition
  · exact h
  · exact core_lock h

variable {r' : ApprovalReducer}

theorem core_frame (h : Core E r) (hrec : r'.records = r.records) (hwait : r'.wait = r.wait)
    (hfence : r'.fence = r.fence) (hobs : r'.observation = r.observation ∨ r'.observation = none)
    (hclear : r'.pendingClear = r.pendingClear) (hlocked : r'.locked = r.locked) : Core E r' where
  records := by rw [hrec]; exact h.records
  shown := by rw [hwait, hfence]; exact h.shown
  observed := by
    intro o ho
    rcases hobs with hobs | hobs
    · exact h.observed o (hobs ▸ ho)
    · rw [hobs] at ho; cases ho
  pendingClear := by rw [hclear, hlocked, hwait, hfence]; exact h.pendingClear

theorem core_dropObservation (h : Core E r) : Core E { r with observation := none } :=
  core_frame h rfl rfl rfl (.inr rfl) rfl rfl

theorem core_advanceClock (h : Core E r) (now : Instant) : Core E (r.advanceClock now).1 := by
  unfold advanceClock
  split
  · exact core_dropObservation (core_lock h)
  · exact core_frame h rfl rfl rfl (.inl rfl) rfl rfl

theorem core_displayDue (h : Core E r) (now : Instant) : Core E (r.displayDue now).1 := by
  obtain heq | ⟨c, f, heq⟩ := displayDue_cases r now
  · rw [heq]; exact h
  · rw [heq]; exact core_frame h rfl rfl rfl (.inl rfl) rfl rfl

theorem core_issue (h : Core E r) (effect : Effect) : Core E (r.issue effect).1 :=
  core_frame h rfl rfl rfl (.inl rfl) rfl rfl

theorem core_addRecord (h : Core E r) (toolId : Option String) (hasPre completed : Bool)
    (hid : ∀ id, toolId = some id → id ≠ "" ∧ (hasPre = true → E.pre id)) :
    Core E (r.addRecord toolId hasPre completed).1 := by
  unfold addRecord
  split
  · exact core_lock h
  · refine ⟨?_, h.shown, h.observed, h.pendingClear⟩
    intro record hmem
    rcases mem_append.mp hmem with hold | hnew
    · exact h.records record hold
    · rw [mem_singleton] at hnew
      subst hnew
      exact ⟨fun id hi => (hid id hi).1, fun hp id hi => (hid id hi).2 hp, by simp⟩

theorem core_pre (h : Core E r) (toolId : Option String)
    (hpre : ∀ id, toolId = some id → E.pre id) : Core E (r.pre toolId) := by
  unfold pre
  simp only
  split
  · exact h
  · refine core_frame (core_addRecord (core_lockIf (core_lockIf h _) _) _ true false ?_)
      rfl rfl rfl (.inl rfl) rfl rfl
    intro id hid
    obtain ⟨hsome, hne⟩ := Option.filter_eq_some_iff.mp hid
    refine ⟨?_, fun _ => hpre id hsome⟩
    intro hempty
    subst hempty
    simp at hne

theorem core_permissionRecord (h : Core E r) (toolId : Option String) :
    Core E (r.permissionRecord toolId).1 := by
  unfold permissionRecord
  split
  · rename_i id
    split
    · exact core_addRecord (core_lock h) _ _ _ (by simp)
    · rename_i hne
      split
      · exact h
      · refine core_addRecord (core_lock h) _ _ _ ?_
        intro id' hid'
        cases hid'
        refine ⟨?_, by simp⟩
        intro hempty
        subst hempty
        simp at hne
  · split
    · exact h
    · split
      · exact h
      · exact core_addRecord (core_lock h) _ _ _ (by simp)

variable {i : Nat}

theorem mem_modify {α : Type} {l : List α} {f : α → α} {x : α} (h : x ∈ l.modify i f) :
    x ∈ l ∨ ∃ y, l[i]? = some y ∧ x = f y := by
  obtain ⟨j, hj⟩ := mem_iff_getElem?.mp h
  rw [List.getElem?_modify, Option.map_eq_map, Option.map_eq_some_iff] at hj
  obtain ⟨y, hy, hx⟩ := hj
  split at hx
  · rename_i hij
    subst hij
    exact .inr ⟨y, hy, hx.symm⟩
  · exact .inl (hx ▸ mem_of_getElem? hy)

theorem core_modify (h : Core E r) (i : Nat) (f : Record → Record)
    (hf : ∀ record, r.records[i]? = some record → (f record).Backed E) :
    Core E { r with records := r.records.modify i f } where
  records := by
    intro record hmem
    rcases mem_modify hmem with hold | ⟨old, hold, rfl⟩
    · exact h.records record hold
    · exact hf old hold
  shown := h.shown
  observed := h.observed
  pendingClear := h.pendingClear

theorem core_setCandidate (h : Core E r) (index : Option Nat) (c : Candidate)
    (hc : c.eligible = true → ∀ i record, index = some i → r.records[i]? = some record →
      ∃ id, record.toolId = some id ∧ E.opened c.id id ∧
        (c.sawPendingEdge = true → E.pending c.id id)) :
    Core E (r.setCandidate index c) := by
  cases index with
  | none => exact h
  | some i =>
    refine core_modify h i _ ?_
    intro record hrec
    have hold := h.records record (mem_of_getElem? hrec)
    refine ⟨hold.toolId, hold.pre, ?_⟩
    intro c' hc' helig
    cases hc'
    exact hc helig i record rfl hrec

/-- What a permission request proves when it opens an eligible candidate. -/
def OpensBy (r : ApprovalReducer) (now : Instant) (record : Record) (id : String) : Prop :=
  r.locked = false ∧ r.wait = none ∧
    r.records.filter (fun record => !record.completed) = [record] ∧
    record.hasPre = true ∧ record.toolId = some id ∧
    ∃ o, r.observation = some o ∧ o.status = .active ∧
      observationIsFresh o.startedAt now = true

variable {record : Record}

/-- If `openCandidate` leaves the reducer unlocked, its record was the only
incomplete one, had a `PreToolUse` and a tool id, over a fresh `Active` baseline. -/
theorem openCandidate_opens {index : Option Nat} (hi : index = some i)
    (hrec : r.records[i]? = some record) (hopen : record.completed = false)
    (hunlocked : (r.lockIf (!r.hasActive now
      || !index.any (fun i => (r.records[i]?).any (fun record =>
        record.hasPre && record.toolId.isSome))
      || (r.records.filter (fun record => !record.completed)).length != 1
      || r.wait.isSome)).locked = false) : ∃ id, OpensBy r now record id := by
  subst hi
  obtain ⟨hcond, -, hlocked⟩ := lockIf_unlocked hunlocked
  simp only [Option.any_some, hrec, Bool.or_eq_false_iff, Bool.not_eq_false', bne_eq_false_iff_eq,
    Bool.and_eq_true, Option.isSome_eq_false_iff, Option.isNone_iff_eq_none] at hcond
  obtain ⟨⟨⟨hactive, hpre, htool⟩, hone⟩, hwait⟩ := hcond
  obtain ⟨id, hid⟩ := Option.isSome_iff_exists.mp htool
  refine ⟨id, hlocked, hwait, ?_, hpre, hid, ?_⟩
  · obtain ⟨x, hx⟩ := length_eq_one_iff.mp hone
    have hmem : record ∈ r.records.filter (fun record => !record.completed) :=
      mem_filter.mpr ⟨mem_of_getElem? hrec, by simp [hopen]⟩
    rw [hx, mem_singleton] at hmem
    rw [hx, hmem]
  · unfold hasActive at hactive
    obtain ⟨o, ho, hact⟩ := (Option.any_eq_true _ _).mp hactive
    simp only [Bool.and_eq_true, beq_iff_eq] at hact
    exact ⟨o, ho, hact.1, hact.2⟩

/-- Some record of `r` with tool id `id` carries candidate `c`. -/
def Carries (r : ApprovalReducer) (c : CandidateId) (id : String) : Prop :=
  ∃ record ∈ r.records, record.toolId = some id ∧ ∃ k, record.candidate = some k ∧ k.id = c

variable {id : String}

theorem carries_setCandidate {c : Candidate} (hrec : r.records[i]? = some record)
    (hid : record.toolId = some id) : Carries (r.setCandidate (some i) c) c.id id := by
  refine ⟨{ record with candidate := some c }, ?_, hid, c, rfl, rfl⟩
  refine mem_iff_getElem?.mpr ⟨i, ?_⟩
  simp [setCandidate, hrec]

theorem core_openCandidate (h : Core E r) (index : Option Nat) (now : Instant)
    (hnew : ∀ i record, index = some i → r.records[i]? = some record → record.completed = false)
    (hopened : ∀ record id, OpensBy r now record id →
      Carries (r.openCandidate index now) (r.nextCandidate + 1) id →
      E.opened (r.nextCandidate + 1) id) : Core E (r.openCandidate index now) := by
  unfold openCandidate at hopened ⊢
  simp only at hopened ⊢
  set r' := r.lockIf _ with hr'
  have hcore : Core E r' := core_lockIf h _
  split
  · exact core_lock (core_frame hcore rfl rfl rfl (.inl rfl) rfl rfl)
  · rename_i hroom
    rw [if_neg hroom] at hopened
    have hwait : ∀ (q : ApprovalReducer), Core E q → Core E (if q.wait.isNone then
        { q with wait := some (Wait.mk (r'.nextCandidate + 1) now false) } else q) := by
      intro q hq
      split
      · rename_i hnone
        refine ⟨hq.records, by simp, hq.observed, ?_⟩
        intro effect heff
        obtain ⟨hl, w, -, hw, -⟩ := hq.pendingClear effect heff
        rw [hw] at hnone
        cases hnone
      · exact hq
    have hcount : Core E { r' with nextCandidate := r'.nextCandidate + 1 } :=
      core_frame hcore rfl rfl rfl (.inl rfl) rfl rfl
    refine hwait _ (core_setCandidate hcount _ _ ?_)
    -- an eligible candidate means that nothing locked the reducer
    intro helig i record hi hrec
    have hunlocked : r'.locked = false := by simpa using helig
    have hsame : r' = r := (lockIf_unlocked hunlocked).2.1
    have hrec' : r.records[i]? = some record := by simpa [hsame] using hrec
    obtain ⟨id, hby⟩ := openCandidate_opens hi hrec' (hnew i record hi hrec') hunlocked
    have hid := hby.2.2.2.2.1
    refine ⟨id, hid, ?_, by simp⟩
    have hcarry := hopened record id hby
    rw [hsame] at hcarry ⊢
    refine hcarry ?_
    subst hi
    have hset : Carries (setCandidate { r with nextCandidate := r.nextCandidate + 1 } (some i)
        { id := r.nextCandidate + 1, eligible := !r.locked, sawPendingEdge := false,
          retired := false }) (r.nextCandidate + 1) id := carries_setCandidate hrec' hid
    split <;> exact hset

@[simp] theorem addRecord_nextCandidate (toolId : Option String) (hasPre completed : Bool) :
    (r.addRecord toolId hasPre completed).1.nextCandidate = r.nextCandidate := by
  unfold addRecord; split <;> rfl

theorem addRecord_locked (h : r.locked = true) (toolId : Option String)
    (hasPre completed : Bool) : (r.addRecord toolId hasPre completed).1.locked = true := by
  unfold addRecord; split <;> [rfl; exact h]

/-- A request that finds its record leaves the reducer alone; one that has to
add a record locks it. -/
theorem permissionRecord_cases (r : ApprovalReducer) (toolId : Option String) :
    (r.permissionRecord toolId).1.nextCandidate = r.nextCandidate ∧
      ((r.permissionRecord toolId).1 = r ∨ (r.permissionRecord toolId).1.locked = true) := by
  unfold permissionRecord
  split
  · split
    · exact ⟨by simp, .inr (addRecord_locked rfl ..)⟩
    · split
      · exact ⟨rfl, .inl rfl⟩
      · exact ⟨by simp, .inr (addRecord_locked rfl ..)⟩
  · split
    · exact ⟨rfl, .inl rfl⟩
    · split
      · exact ⟨rfl, .inl rfl⟩
      · exact ⟨by simp, .inr (addRecord_locked rfl ..)⟩

theorem core_permission (h : Core E r) (toolId : Option String) (now : Instant)
    (hopened : ∀ record id, OpensBy r now record id →
      Carries (r.permission toolId now) (r.nextCandidate + 1) id →
      E.opened (r.nextCandidate + 1) id) : Core E (r.permission toolId now) := by
  obtain ⟨hnext, hsame⟩ := permissionRecord_cases r toolId
  have hcore := core_permissionRecord h toolId
  unfold permission at hopened ⊢
  simp only at hopened ⊢
  split
  · exact core_lockIf hcore _
  · rename_i hfresh
    rw [if_neg hfresh] at hopened
    refine core_openCandidate hcore _ now ?_ ?_
    · intro i record hi hrec
      simp only [hi, Option.any_some, hrec, Bool.or_eq_true, not_or, Bool.not_eq_true] at hfresh
      exact hfresh.1
    · intro record id hby hcarry
      rw [hnext] at hcarry ⊢
      refine hopened record id ?_ hcarry
      rcases hsame with heq | hlocked
      · rw [heq] at hby; exact hby
      · rw [hby.1] at hlocked; cases hlocked

/-! ### Retiring a candidate -/

/-- Every outcome of `retire`: nothing, a candidate marked retired, an unshown
wait dropped, or the clear of an eligible candidate whose wait is shown. -/
theorem retire_cases (r : ApprovalReducer) (index : Nat) :
    r.retire index = (r, none) ∨
    ∃ record c, r.records[index]? = some record ∧ record.candidate = some c ∧
      (r.retire index = (r.setCandidate (some index) { c with retired := true }, none) ∨
       (∃ wait, r.wait = some wait ∧ wait.shown = false ∧ r.retire index =
        ({ r.setCandidate (some index) { c with retired := true } with wait := none }, none)) ∨
       ∃ wait, r.locked = false ∧ c.eligible = true ∧ r.wait = some wait ∧
        wait.candidate = c.id ∧ wait.shown = true ∧
        r.retire index = ({ r.setCandidate (some index) { c with retired := true } with
          pendingClear := some (.clearWait wait.candidate r.fence) },
          some (.clearWait wait.candidate r.fence))) := by
  unfold retire
  split
  · exact .inl rfl
  · rename_i c hc
    obtain ⟨record, hrec, hcand⟩ := Option.bind_eq_some_iff.mp hc
    split
    · exact .inl rfl
    · refine .inr ⟨record, c, hrec, hcand, ?_⟩
      have hl : (r.setCandidate (some index) { c with retired := true }).locked = r.locked := rfl
      have hw : (r.setCandidate (some index) { c with retired := true }).wait = r.wait := rfl
      simp only [hl, hw]
      split
      · exact .inl rfl
      · rename_i hgo
        simp only [Bool.or_eq_true, Bool.not_eq_true', not_or, Bool.not_eq_true,
          Bool.not_eq_false] at hgo
        split
        · exact .inl rfl
        · rename_i wait hwait
          split
          · exact .inl rfl
          · rename_i hsame
            split
            · rename_i hshown
              exact .inr (.inl ⟨wait, hwait, by simpa using hshown, rfl⟩)
            · rename_i hshown
              exact .inr (.inr ⟨wait, hgo.1, hgo.2, hwait, by simpa using hsame,
                by simpa using hshown, rfl⟩)

theorem core_retire (h : Core E r) (index : Nat)
    (hres : ∀ record c id, r.records[index]? = some record → record.candidate = some c →
      record.toolId = some id → E.opened c.id id →
      (c.sawPendingEdge = true → E.pending c.id id) → E.resolved c.id id) :
    Core E (r.retire index).1 := by
  obtain heq | ⟨record, c, hrec, hcand, hcases⟩ := retire_cases r index
  · rw [heq]; exact h
  have hback := h.records record (mem_of_getElem? hrec)
  have hset : Core E (r.setCandidate (some index) { c with retired := true }) := by
    refine core_setCandidate h _ _ ?_
    intro helig i record' hi hrec'
    cases hi
    rw [hrec] at hrec'
    cases hrec'
    exact hback.candidate c hcand helig
  rcases hcases with heq | ⟨wait, hwait, hshown, heq⟩ | ⟨wait, hl, helig, hwait, hsame, hshown, heq⟩
  · rw [heq]; exact hset
  · rw [heq]
    refine ⟨hset.records, by simp, hset.observed, ?_⟩
    intro effect heff
    -- an unshown wait has no pending clear
    obtain ⟨-, w, -, hw, hs, -⟩ := h.pendingClear effect heff
    rw [hwait] at hw
    cases hw
    rw [hshown] at hs
    cases hs
  · rw [heq]
    refine ⟨hset.records, hset.shown, hset.observed, ?_⟩
    intro effect heff
    cases heff
    obtain ⟨id, hid, hopen, hpend⟩ := hback.candidate c hcand helig
    refine ⟨hl, wait, id, hwait, hshown, hback.toolId id hid, rfl, ?_⟩
    rw [hsame]
    exact ⟨hopen, hres record c id hrec hcand hid hopen hpend⟩

theorem retire_some {index : Nat} (h : r.retire index = (r', some effect)) :
    r.locked = false ∧ r.wait.isSome = true ∧ r'.pendingClear = some effect ∧
      r'.observation = r.observation ∧ r'.clock = r.clock := by
  obtain heq | ⟨record, c, -, -, hcases⟩ := retire_cases r index
  · rw [heq] at h; simp at h
  · rcases hcases with heq | ⟨-, -, -, heq⟩ | ⟨wait, hl, -, hwait, -, -, heq⟩
    · rw [heq] at h; simp at h
    · rw [heq] at h; simp at h
    · rw [heq] at h
      simp only [Prod.mk.injEq, Option.some.injEq] at h
      obtain ⟨rfl, rfl⟩ := h
      exact ⟨hl, by simp [hwait], rfl, rfl, rfl⟩

@[simp] theorem retire_issued (r : ApprovalReducer) (index : Nat) :
    (r.retire index).1.issued = r.issued := by
  obtain heq | ⟨record, c, -, -, heq | ⟨-, -, -, heq⟩ | ⟨wait, -, -, -, -, -, heq⟩⟩ :=
    retire_cases r index
  all_goals rw [heq]
  all_goals rfl

theorem find_toolId {index : Nat} (h : r.find id = some index) :
    ∃ record, r.records[index]? = some record ∧ record.toolId = some id := by
  unfold find at h
  obtain ⟨hlt, hp, -⟩ := List.findIdx?_eq_some_iff_getElem.mp h
  exact ⟨r.records[index], List.getElem?_eq_getElem hlt, by simpa using hp⟩

theorem core_completeRecord (h : Core E r) (index : Nat) : Core E (r.completeRecord index) := by
  refine core_modify h index _ ?_
  intro record hrec
  have hold := h.records record (mem_of_getElem? hrec)
  exact ⟨hold.toolId, hold.pre, hold.candidate⟩

theorem core_post (h : Core E r) (toolId : Option String)
    (hres : ∀ c id, toolId = some id → E.opened c id → E.resolved c id) :
    Core E (r.post toolId).1 := by
  unfold post
  split
  · exact core_lock h
  · rename_i id hid
    obtain ⟨hsome, hne⟩ := Option.filter_eq_some_iff.mp hid
    split
    · refine core_addRecord (core_lock h) _ _ _ ?_
      intro id' hid'
      cases hid'
      refine ⟨?_, by simp⟩
      intro hempty
      subst hempty
      simp at hne
    · rename_i index hfind
      obtain ⟨record, hrec, htool⟩ := find_toolId hfind
      split
      · exact h
      · simp only
        split
        · exact core_completeRecord h index
        · refine core_retire (core_completeRecord h index) index ?_
          intro record' c id' hrec' _ hid' hopen _
          simp only [completeRecord, List.getElem?_modify, hrec, if_true, Option.map_eq_map,
            Option.map_some, Option.some.injEq] at hrec'
          subst hrec'
          have heq : id' = id := by rw [htool] at hid'; exact (Option.some.inj hid').symm
          subst heq
          exact hres _ _ hsome hopen

theorem post_some {toolId : Option String} (h : r.post toolId = (r', some effect)) :
    r.locked = false ∧ r.wait.isSome = true ∧ r'.pendingClear = some effect ∧
      r'.observation = r.observation ∧ r'.clock = r.clock := by
  unfold post at h
  split at h
  · simp at h
  · split at h
    · simp at h
    · split at h
      · simp at h
      · simp only at h
        split at h
        · simp at h
        · -- completing the record touches none of these fields
          obtain ⟨hl, hw, hp, ho, hc⟩ := retire_some h
          exact ⟨hl, hw, hp, ho, hc⟩

@[simp] theorem post_issued (r : ApprovalReducer) (toolId : Option String) :
    (r.post toolId).1.issued = r.issued := by
  unfold post
  split
  · rfl
  · split
    · simp
    · split
      · rfl
      · simp only
        split
        · rfl
        · rw [retire_issued]; rfl

/-! ### Observations -/

theorem core_markPendingEdge (h : Core E r) (index : Nat)
    (hpend : ∀ c id, E.opened c id → E.pending c id) : Core E (r.markPendingEdge index) := by
  refine core_modify h index _ ?_
  intro record hrec
  have hold := h.records record (mem_of_getElem? hrec)
  refine ⟨hold.toolId, hold.pre, ?_⟩
  intro c hc helig
  obtain ⟨old, holdc, rfl⟩ := Option.map_eq_some_iff.mp hc
  obtain ⟨id, hid, hopen, -⟩ := hold.candidate old holdc helig
  exact ⟨id, hid, hopen, fun _ => hpend _ _ hopen⟩

theorem core_observePending (h : Core E r) (previous : Option NativeStatus) (startedAt : Instant)
    (hpend : previous = some .active → ∀ c id, E.opened c id → E.pending c id) :
    Core E (r.observePending previous startedAt) := by
  unfold observePending
  split
  · exact h
  · simp only
    split
    · split
      · rename_i hattr
        simp only [Bool.and_eq_true, beq_iff_eq] at hattr
        exact core_markPendingEdge h _ (hpend hattr.2)
      · split
        · exact h
        · exact core_lock h
    · exact core_lock h

theorem core_observeActive (h : Core E r) (previous : Option NativeStatus)
    (hres : previous = some .approvalPending → ∀ c id, E.pending c id → E.resolved c id) :
    Core E (r.observeActive previous).1 := by
  unfold observeActive
  split
  · rename_i hedge
    simp only [Bool.and_eq_true, beq_iff_eq] at hedge
    split
    · rename_i index hserial
      split
      · rename_i hsaw
        refine core_retire h index ?_
        intro record c id hrec hc _ _ hpend
        simp only [sawPending, hrec, Option.bind_some, hc, Option.any_some] at hsaw
        exact hres hedge.2 _ _ (hpend hsaw)
      · exact h
    · exact h
  · exact h

theorem observeActive_some (h : r.observeActive previous = (r', some effect)) :
    r.locked = false ∧ r'.pendingClear = some effect ∧ r'.observation = r.observation ∧
      r'.clock = r.clock := by
  unfold observeActive at h
  split at h
  · split at h
    · split at h
      · obtain ⟨hl, -, hp, ho, hc⟩ := retire_some h
        exact ⟨hl, hp, ho, hc⟩
      · simp at h
    · simp at h
  · simp at h

@[simp] theorem observeActive_issued (r : ApprovalReducer) (previous : Option NativeStatus) :
    (r.observeActive previous).1.issued = r.issued := by
  unfold observeActive
  split
  · split
    · split
      · simp
      · rfl
    · rfl
  · rfl

@[simp] theorem observePending_issued (r : ApprovalReducer) (previous : Option NativeStatus)
    (startedAt : Instant) : (r.observePending previous startedAt).issued = r.issued := by
  unfold observePending
  split
  · rfl
  · simp only
    split
    · split
      · rfl
      · split <;> rfl
    · rfl

theorem core_observed (h : Core E r) (previous : Option NativeStatus) (status : NativeStatus)
    (startedAt now : Instant)
    (hpend : status = .approvalPending → previous = some .active →
      ∀ c id, E.opened c id → E.pending c id)
    (hres : status = .active → previous = some .approvalPending →
      ∀ c id, E.pending c id → E.resolved c id) :
    Core E (r.observed previous status startedAt now).1 := by
  cases status with
  | approvalPending => exact core_displayDue (core_observePending h _ _ (hpend rfl)) _
  | active =>
    have hcore := core_observeActive h previous (hres rfl)
    unfold observed
    simp only
    split
    · rename_i r' effect heq
      rw [heq] at hcore
      exact core_issue hcore _
    · rename_i r' heq
      rw [heq] at hcore
      exact core_displayDue hcore _
  | userInputPending => exact core_displayDue (core_lock h) _
  | unavailable =>
    exact core_displayDue (core_dropObservation (core_lockIf h _)) _

theorem core_retain (h : Core E r) (o : Observation) (ho : E.observed o) :
    Core E { r with lastObservationStart := some o.startedAt, observation := some o } where
  records := h.records
  shown := h.shown
  observed := by
    intro o' ho'
    cases ho'
    exact ho
  pendingClear := h.pendingClear

theorem core_observe (h : Core E r) (status : NativeStatus) (complete : Bool)
    (startedAt now : Instant)
    (hobs : complete = true → E.observed { status := status, startedAt := startedAt })
    (hpend : complete = true → status = .approvalPending →
      ∀ o, r.observation = some o → o.status = .active → ∀ c id, E.opened c id → E.pending c id)
    (hres : complete = true → status = .active →
      ∀ o, r.observation = some o → o.status = .approvalPending →
        ∀ c id, E.pending c id → E.resolved c id) :
    Core E (r.observe status complete startedAt now).1 := by
  have hstart : Core E { r with issued := none } :=
    core_frame h rfl rfl rfl (.inl rfl) rfl rfl
  have hclock := core_advanceClock hstart now
  unfold observe
  simp only
  split
  · exact core_displayDue (core_dropObservation (core_lock hclock)) _
  · rename_i hgo
    simp only [Bool.or_eq_true, Bool.not_eq_true', not_or, Bool.not_eq_false] at hgo
    obtain ⟨⟨⟨hordered, -⟩, -⟩, hcomplete⟩ := hgo
    have hkept := core_retain hclock _ (hobs hcomplete)
    -- an ordered clock keeps the retained observation, so `previous` is the one of `r`
    have hprev : ∀ s, Option.map (fun o => o.status)
        (({ r with issued := none } : ApprovalReducer).advanceClock now).1.observation = some s →
        ∃ o, r.observation = some o ∧ o.status = s := by
      intro s hs
      unfold advanceClock at hs hordered
      split at hs
      · simp at hs
      · exact Option.map_eq_some_iff.mp hs
    have hobserved : ∀ q, Core E q → Core E (q.observed (Option.map (fun o => o.status)
        (({ r with issued := none } : ApprovalReducer).advanceClock now).1.observation)
        status startedAt now).1 := by
      intro q hq
      refine core_observed hq _ _ _ _ ?_ ?_
      · intro hst hpr c id hopen
        obtain ⟨o, ho, hos⟩ := hprev _ hpr
        exact hpend hcomplete hst o ho hos c id hopen
      · intro hst hpr c id hp
        obtain ⟨o, ho, hos⟩ := hprev _ hpr
        exact hres hcomplete hst o ho hos c id hp
    split
    · split
      · exact core_issue hkept _
      · exact hobserved _ (core_lock hkept)
    · exact hobserved _ hkept

/-! ### Public methods -/

theorem core_reset (E : Evidence) (r : ApprovalReducer) : Core E r.reset where
  records := by simp [reset]
  shown := by simp [reset]
  observed := by simp [reset]
  pendingClear := by simp [reset]

/-- The reducer as `hook` hands it to the event's own method. -/
def hookStart (r : ApprovalReducer) (now : Instant) : ApprovalReducer :=
  ((({ r with issued := none } : ApprovalReducer).lockIf r.pendingClear.isSome).advanceClock now).1

theorem core_unissue (h : Core E r) : Core E { r with issued := none } :=
  core_frame h rfl rfl rfl (.inl rfl) rfl rfl

theorem core_hookStart (h : Core E r) (now : Instant) : Core E (hookStart r now) :=
  core_advanceClock (core_lockIf (core_unissue h) _) now

@[simp] theorem hookStart_issued (r : ApprovalReducer) (now : Instant) :
    (hookStart r now).issued = none := by
  simp [hookStart]

@[simp] theorem hookStart_nextCandidate (r : ApprovalReducer) (now : Instant) :
    (hookStart r now).nextCandidate = r.nextCandidate := by
  unfold hookStart advanceClock
  split <;> simp

theorem hookStart_unlocked (h : (hookStart r now).locked = false) :
    hookStart r now = { r with issued := none, clock := some now } ∧ r.locked = false := by
  obtain ⟨heq, -⟩ := advanceClock_unlocked h
  unfold hookStart at h ⊢
  rw [heq] at h ⊢
  obtain ⟨-, hsame, hl⟩ := lockIf_unlocked h
  rw [hsame]
  exact ⟨rfl, hl⟩

/-- The reducer as `hook` hands it to `post`. -/
def postStart (r : ApprovalReducer) (now : Instant) : ApprovalReducer :=
  (hookStart r now).lockIf ((hookStart r now).wait.isSome && !(hookStart r now).hasFresh now)

theorem hook_postToolUse (r : ApprovalReducer) (toolId : Option String) (now : Instant) :
    r.hook .postToolUse toolId now = match (postStart r now).post toolId with
      | (r, some effect) => r.issue effect
      | (r, none) => r.displayDue now := rfl

theorem opensBy_of_hookStart (h : OpensBy (hookStart r now) now record id) :
    OpensBy r now record id := by
  obtain ⟨heq, -⟩ := hookStart_unlocked h.1
  rw [heq] at h
  exact h

theorem core_hook (h : Core E r) (event : HookEvent) (toolId : Option String) (now : Instant)
    (hpre : event = .preToolUse → ∀ id, toolId = some id → E.pre id)
    (hopened : event = .permissionRequest → ∀ record id, OpensBy r now record id →
      Carries (r.hook event toolId now).1 (r.nextCandidate + 1) id →
      E.opened (r.nextCandidate + 1) id)
    (hres : event = .postToolUse → ∀ c id, toolId = some id → E.opened c id → E.resolved c id) :
    Core E (r.hook event toolId now).1 := by
  have hstart := core_hookStart h now
  cases event with
  | stop => exact core_reset E _
  | userPromptSubmit => exact core_reset E _
  | preToolUse => exact core_displayDue (core_pre hstart toolId (hpre rfl)) now
  | permissionRequest =>
    refine core_displayDue (core_permission hstart toolId now ?_) now
    intro record id hby hcarry
    rw [hookStart_nextCandidate] at hcarry ⊢
    refine hopened rfl record id (opensBy_of_hookStart hby) ?_
    -- `display_due` does not touch the records
    change Carries (((hookStart r now).permission toolId now).displayDue now).1 _ _
    obtain heq | ⟨c, f, heq⟩ := displayDue_cases ((hookStart r now).permission toolId now) now
    · rw [heq]; exact hcarry
    · rw [heq]; exact hcarry
  | postToolUse =>
    have hcore : Core E ((postStart r now).post toolId).1 :=
      core_post (core_lockIf hstart _) toolId (hres rfl)
    rw [hook_postToolUse]
    split
    · rename_i r' effect heq
      rw [heq] at hcore
      exact core_issue hcore _
    · rename_i r' heq
      rw [heq] at hcore
      exact core_displayDue hcore _

/-- `tick` after `advance_clock`. -/
def tickClock (r : ApprovalReducer) (now : Instant) : ApprovalReducer :=
  if (r.advanceClock now).2 then (r.advanceClock now).1
  else { (r.advanceClock now).1 with issued := none }

/-- The reducer as `tick` hands it to its last two lines. -/
def tickStart (r : ApprovalReducer) (now : Instant) : ApprovalReducer :=
  if (tickClock r now).wait.isSome && !(tickClock r now).hasFresh now then
    (if (tickClock r now).locked then tickClock r now
      else { tickClock r now with issued := none }).lock
  else tickClock r now

theorem tick_eq (r : ApprovalReducer) (now : Instant) :
    r.tick now = match (tickStart r now).pendingClear with
      | some effect => (tickStart r now).issue effect
      | none => (tickStart r now).displayDue now := rfl

theorem core_tickClock (h : Core E r) (now : Instant) : Core E (tickClock r now) := by
  unfold tickClock
  split
  · exact core_advanceClock h now
  · exact core_unissue (core_advanceClock h now)

theorem core_tickStart (h : Core E r) (now : Instant) : Core E (tickStart r now) := by
  have hclock := core_tickClock h now
  unfold tickStart
  split
  · refine core_lock ?_
    split
    · exact hclock
    · exact core_unissue hclock
  · exact hclock

theorem core_tick (h : Core E r) (now : Instant) : Core E (r.tick now).1 := by
  have hstart := core_tickStart h now
  rw [tick_eq]
  split
  · exact core_issue hstart _
  · exact core_displayDue hstart _

theorem core_disconnected (h : Core E r) : Core E r.disconnected := by
  refine core_lockIf ?_ _
  exact core_frame h rfl rfl rfl (.inr rfl) rfl rfl

theorem core_acknowledgeShow (h : Core E r) (effect : Effect)
    (hshown : ∀ c f, effect = .showWait c f → (r.acknowledgeShow effect).2 = true → E.shown c f) :
    Core E (r.acknowledgeShow effect).1 := by
  unfold acknowledgeShow at hshown ⊢
  split
  · exact h
  · rename_i hacc
    rw [if_neg hacc] at hshown
    cases effect with
    | clearWait c f => exact h
    | showWait c f =>
      simp only at hshown ⊢
      split
      · exact h
      · rename_i hfence
        rw [if_neg hfence] at hshown
        have hf : f = r.fence := by simpa using hfence
        split
        · exact h
        · rename_i wait hwait
          rw [hwait] at hshown
          obtain ⟨hw, hc⟩ := Option.filter_eq_some_iff.mp hwait
          have hc' : wait.candidate = c := by simpa using hc
          refine ⟨h.records, ?_, h.observed, ?_⟩
          · intro w hw' _
            cases hw'
            rw [← hf, hc']
            exact hshown c f rfl rfl
          · intro e he
            obtain ⟨hl, w, id, hw', hs, hne, heq, hres⟩ := h.pendingClear e he
            rw [hw] at hw'
            cases hw'
            exact ⟨hl, _, id, rfl, rfl, hne, heq, hres⟩

theorem core_acknowledgeClear (h : Core E r) (effect : Effect) :
    Core E (r.acknowledgeClear effect).1 := by
  unfold acknowledgeClear
  split
  · exact h
  · exact ⟨h.records, by simp, h.observed, by simp⟩

/-! ## An issued clear is the pending one -/

theorem issuedClear_of_none (h : r.issued = none) : IssuedClear r := by
  intro c f hi
  rw [h] at hi
  cases hi

theorem issuedClear_displayDue (h : IssuedClear r) (now : Instant) :
    IssuedClear (r.displayDue now).1 := by
  obtain heq | ⟨c, f, heq⟩ := displayDue_cases r now
  · rw [heq]; exact h
  · rw [heq]
    intro c' f' hi
    simp at hi

theorem issuedClear_issue (hp : r.pendingClear = some effect) (hc : r.clock = some now)
    (hf : r.hasFresh now = true) : IssuedClear (r.issue effect).1 := by
  intro c f hi
  simp only [issue, Option.some.injEq] at hi
  subst hi
  exact ⟨hp, now, hc, hf⟩

theorem issuedClear_issue_of (hp : r'.pendingClear = some effect)
    (ho : r'.observation = r.observation) (hc : r'.clock = r.clock) (hclock : r.clock = some now)
    (hf : r.hasFresh now = true) : IssuedClear (r'.issue effect).1 :=
  issuedClear_issue hp (hc.trans hclock) (by unfold hasFresh at hf ⊢; rw [ho]; exact hf)

theorem postStart_unlocked (h : (postStart r now).locked = false)
    (hw : (postStart r now).wait.isSome = true) :
    (postStart r now).clock = some now ∧ (postStart r now).hasFresh now = true := by
  obtain ⟨hcond, heq, hl⟩ := lockIf_unlocked h
  unfold postStart at hw ⊢
  rw [heq] at hw ⊢
  rw [hw] at hcond
  obtain ⟨hsame, -⟩ := hookStart_unlocked hl
  exact ⟨by rw [hsame], by simpa using hcond⟩

theorem issuedClear_hook (r : ApprovalReducer) (event : HookEvent) (toolId : Option String)
    (now : Instant) : IssuedClear (r.hook event toolId now).1 := by
  cases event with
  | stop => exact issuedClear_of_none rfl
  | userPromptSubmit => exact issuedClear_of_none rfl
  | preToolUse =>
    have hn : ((hookStart r now).pre toolId).issued = none := by simp
    exact issuedClear_displayDue (issuedClear_of_none hn) now
  | permissionRequest =>
    have hn : ((hookStart r now).permission toolId now).issued = none := by simp
    exact issuedClear_displayDue (issuedClear_of_none hn) now
  | postToolUse =>
    rw [hook_postToolUse]
    split
    · rename_i r' effect heq
      obtain ⟨hl, hw, hp, ho, hc⟩ := post_some heq
      obtain ⟨hclock, hfresh⟩ := postStart_unlocked hl hw
      exact issuedClear_issue_of hp ho hc hclock hfresh
    · rename_i r' heq
      have hn : ((postStart r now).post toolId).1.issued = none := by simp [postStart]
      rw [heq] at hn
      exact issuedClear_displayDue (issuedClear_of_none hn) now

theorem issuedClear_observed {status : NativeStatus} {startedAt : Instant} (hn : r.issued = none)
    (hclock : r.clock = some now) (hf : r.hasFresh now = true) :
    IssuedClear (r.observed previous status startedAt now).1 := by
  cases status with
  | approvalPending =>
    have hn' : (r.observePending previous startedAt).issued = none := by simp [hn]
    exact issuedClear_displayDue (issuedClear_of_none hn') now
  | active =>
    unfold observed
    simp only
    split
    · rename_i r' effect heq
      obtain ⟨-, hp, ho, hc⟩ := observeActive_some heq
      exact issuedClear_issue_of hp ho hc hclock hf
    · rename_i r' heq
      have hn' : (r.observeActive previous).1.issued = none := by simp [hn]
      rw [heq] at hn'
      exact issuedClear_displayDue (issuedClear_of_none hn') now
  | userInputPending =>
    have hn' : r.lock.issued = none := hn
    exact issuedClear_displayDue (issuedClear_of_none hn') now
  | unavailable =>
    exact issuedClear_displayDue (issuedClear_of_none (by simp [hn])) now

theorem issuedClear_observe (r : ApprovalReducer) (status : NativeStatus) (complete : Bool)
    (startedAt now : Instant) : IssuedClear (r.observe status complete startedAt now).1 := by
  unfold observe
  simp only
  split
  · exact issuedClear_displayDue (issuedClear_of_none (by simp)) now
  · rename_i hgo
    simp only [Bool.or_eq_true, Bool.not_eq_true', not_or, Bool.not_eq_false] at hgo
    obtain ⟨⟨⟨hordered, -⟩, hfresh⟩, -⟩ := hgo
    have hf : ∀ q : ApprovalReducer,
        q.observation = some { status := status, startedAt := startedAt } →
        q.hasFresh now = true := by
      intro q hq
      simp [hasFresh, hq, hfresh]
    split
    · rename_i effect hp
      split
      · exact issuedClear_issue hp (advanceClock_clock hordered) (hf _ rfl)
      · exact issuedClear_observed (by simp) (advanceClock_clock hordered) (hf _ rfl)
    · exact issuedClear_observed (by simp) (advanceClock_clock hordered) (hf _ rfl)

theorem tickStart_clear (h : Inv E r) (now : Instant) :
    ((∃ effect, (tickStart r now).pendingClear = some effect) →
      (tickStart r now).clock = some now ∧ (tickStart r now).hasFresh now = true) ∧
    ((tickStart r now).pendingClear = none → IssuedClear (tickStart r now)) := by
  have hcore := core_tickStart h.core now
  refine ⟨?_, ?_⟩
  · rintro ⟨effect, heff⟩
    obtain ⟨hl, wait, -, hw, -⟩ := hcore.pendingClear effect heff
    unfold tickStart at hl hw ⊢
    split
    · rename_i hstale
      simp [hstale] at hl
    · rename_i hfresh
      rw [if_neg hfresh] at hl hw
      unfold tickClock at hl hw hfresh ⊢
      split
      · rename_i hordered
        rw [if_pos hordered] at hl hw hfresh
        obtain ⟨heq, -⟩ := advanceClock_unlocked hl
        rw [heq] at hw hfresh ⊢
        refine ⟨rfl, ?_⟩
        change r.wait = some wait at hw
        simpa [hw] using hfresh
      · rename_i hback
        rw [if_neg hback] at hl
        exact absurd (advanceClock_unlocked hl).2 hback
  · intro hnone c f hi
    exfalso
    unfold tickStart at hnone hi
    have hpast : (tickClock r now).issued = some (.clearWait c f) →
        (tickClock r now).pendingClear = some (.clearWait c f) ∧
          (tickClock r now).locked = false := by
      intro hi'
      unfold tickClock at hi' ⊢
      split at hi'
      · rename_i hordered
        rw [if_pos hordered]
        rw [advanceClock_issued] at hi'
        have hp := (h.issued c f hi').1
        obtain ⟨hl, -⟩ := h.core.pendingClear _ hp
        unfold advanceClock at hordered ⊢
        split
        · rename_i hlt; simp [hlt] at hordered
        · exact ⟨hp, hl⟩
      · simp at hi'
    split at hi
    · split at hi
      · rename_i hl
        rw [lock_issued] at hi
        rw [(hpast hi).2] at hl
        cases hl
      · simp at hi
    · rename_i hfresh
      rw [if_neg hfresh, (hpast hi).1] at hnone
      cases hnone

theorem issuedClear_tick (h : Inv E r) (now : Instant) : IssuedClear (r.tick now).1 := by
  obtain ⟨hsome, hnone⟩ := tickStart_clear h now
  rw [tick_eq]
  split
  · rename_i effect hp
    obtain ⟨hc, hf⟩ := hsome ⟨effect, hp⟩
    exact issuedClear_issue hp hc hf
  · rename_i hp
    exact issuedClear_displayDue (hnone hp) now

theorem issuedClear_acknowledgeShow (h : IssuedClear r) (effect : Effect) :
    IssuedClear (r.acknowledgeShow effect).1 := by
  unfold acknowledgeShow
  split
  · exact h
  · cases effect with
    | clearWait c f => exact h
    | showWait c f =>
      simp only
      split
      · exact h
      · split
        · exact h
        · exact h

theorem issuedClear_acknowledgeClear (h : IssuedClear r) (effect : Effect) :
    IssuedClear (r.acknowledgeClear effect).1 := by
  unfold acknowledgeClear
  split
  · exact h
  · exact issuedClear_of_none rfl

end core

/-! ## A locked reducer stays locked -/

section locked
variable {r : ApprovalReducer} (h : r.locked = true)
include h

theorem lockIf_locked (condition : Bool) : (r.lockIf condition).locked = true := by
  cases condition
  · exact h
  · rfl

variable (now : Instant)

theorem advanceClock_locked : (r.advanceClock now).1.locked = true := by
  unfold advanceClock
  split
  · rfl
  · exact h

theorem displayDue_locked : (r.displayDue now).1.locked = true := by
  obtain heq | ⟨c, f, heq⟩ := displayDue_cases r now
  · rw [heq]; exact h
  · rw [heq]; exact h

variable (toolId : Option String)

theorem pre_locked : (r.pre toolId).locked = true := by
  unfold pre
  simp only
  split
  · exact h
  · exact addRecord_locked (lockIf_locked (lockIf_locked h _) _) ..

variable (index : Option Nat)

theorem setCandidate_locked (c : Candidate) : (r.setCandidate index c).locked = true := by
  cases index <;> exact h

theorem openCandidate_locked (now : Instant) : (r.openCandidate index now).locked = true := by
  unfold openCandidate
  simp only
  split
  · rfl
  · have hl := lockIf_locked h
    split
    · refine setCandidate_locked ?_ ..
      exact hl _
    · refine setCandidate_locked ?_ ..
      exact hl _

theorem permission_locked (now : Instant) : (r.permission toolId now).locked = true := by
  have hrec : (r.permissionRecord toolId).1.locked = true := by
    rcases (permissionRecord_cases r toolId).2 with heq | hl
    · rw [heq]; exact h
    · exact hl
  unfold permission
  simp only
  split
  · exact lockIf_locked hrec _
  · exact openCandidate_locked hrec _ _

theorem retire_locked (index : Nat) : (r.retire index).1.locked = true := by
  obtain heq | ⟨record, c, -, -, heq | ⟨wait, -, -, heq⟩ | ⟨wait, -, -, -, -, -, heq⟩⟩ :=
    retire_cases r index
  all_goals rw [heq]
  all_goals exact h

theorem post_locked : (r.post toolId).1.locked = true := by
  unfold post
  split
  · rfl
  · split
    · exact addRecord_locked rfl ..
    · split
      · exact h
      · simp only
        split
        · exact h
        · exact retire_locked (r := r.completeRecord _) h _

theorem hook_locked (event : HookEvent) (toolId : Option String) (now : Instant)
    (hr : ¬ (Input.hook event toolId now).isReset) : (r.hook event toolId now).1.locked = true := by
  have hstart : (hookStart r now).locked = true := by
    refine advanceClock_locked (lockIf_locked ?_ _) now
    exact h
  cases event with
  | stop => exact absurd trivial hr
  | userPromptSubmit => exact absurd trivial hr
  | preToolUse => exact displayDue_locked (pre_locked hstart _) _
  | permissionRequest => exact displayDue_locked (permission_locked hstart _ _) _
  | postToolUse =>
    have hpost : ((postStart r now).post toolId).1.locked = true :=
      post_locked (lockIf_locked hstart _) _
    rw [hook_postToolUse]
    split
    · rename_i heq
      rw [heq] at hpost
      exact hpost
    · rename_i heq
      rw [heq] at hpost
      exact displayDue_locked hpost _

theorem observed_locked (previous : Option NativeStatus) (status : NativeStatus)
    (startedAt now : Instant) : (r.observed previous status startedAt now).1.locked = true := by
  cases status with
  | approvalPending =>
    refine displayDue_locked ?_ _
    simp [observePending, h]
  | active =>
    have hact : r.observeActive previous = (r, none) := by simp [observeActive, h]
    simp only [observed, hact]
    exact displayDue_locked h _
  | userInputPending => exact displayDue_locked (by simp) _
  | unavailable =>
    refine displayDue_locked ?_ _
    exact lockIf_locked h _

theorem observe_locked (status : NativeStatus) (complete : Bool) (startedAt now : Instant) :
    (r.observe status complete startedAt now).1.locked = true := by
  have hclock := advanceClock_locked (r := { r with issued := none }) h now
  unfold observe
  simp only
  split
  · exact displayDue_locked (by simp) _
  · split
    · split
      · exact hclock
      · exact observed_locked (by simp) ..
    · refine observed_locked ?_ ..
      exact hclock

theorem tickStart_locked : (tickStart r now).locked = true := by
  have hclock : (tickClock r now).locked = true := by
    unfold tickClock
    split
    · exact advanceClock_locked h now
    · exact advanceClock_locked h now
  unfold tickStart
  split
  · simp
  · exact hclock

theorem tick_locked : (r.tick now).1.locked = true := by
  rw [tick_eq]
  split
  · exact tickStart_locked h now
  · exact displayDue_locked (tickStart_locked h now) now

theorem acknowledgeShow_locked (effect : Effect) :
    (r.acknowledgeShow effect).1.locked = true := by
  unfold acknowledgeShow
  split
  · exact h
  · cases effect with
    | clearWait c f => exact h
    | showWait c f =>
      simp only
      split
      · exact h
      · split
        · exact h
        · exact h

theorem apply_locked (a : Input) (hr : ¬ a.isReset) : (r.apply a).1.locked = true := by
  cases a with
  | hook event toolId now => exact hook_locked h event toolId now hr
  | observe status complete startedAt now => exact observe_locked h ..
  | tick now => exact tick_locked h now
  | invalidate fence => exact absurd trivial hr
  | disconnected =>
    refine lockIf_locked ?_ _
    exact h
  | acknowledgeShow effect => exact acknowledgeShow_locked h effect
  | acknowledgeClear effect =>
    change (r.acknowledgeClear effect).1.locked = true
    unfold acknowledgeClear
    split
    · exact h
    · exact h

end locked

/-! ## The evidence of a run -/

/-- A step of the run since its last reset satisfied `P`. -/
def SinceReset (fence : Fence) (P : List Input → ApprovalReducer → Input → ApprovalReducer → Prop)
    (inputs : List Input) : Prop :=
  Occurred Step (new fence) Input.isReset P inputs

def PreSeen (fence : Fence) (inputs : List Input) (id : String) : Prop :=
  SinceReset fence (fun _ _ a _ => ∃ now, a = .hook .preToolUse (some id) now) inputs

/-- Candidate `c` was opened by a permission request whose record had a
`PreToolUse` and tool id `id`, was the only incomplete record, and was received
over a fresh `Active` baseline. -/
def Opened (fence : Fence) (inputs : List Input) (c : CandidateId) (id : String) : Prop :=
  SinceReset fence (fun earlier s a t => ∃ toolId now record,
    a = .hook .permissionRequest toolId now ∧ OpensBy s now record id ∧
      PreSeen fence earlier id ∧ c = s.nextCandidate + 1 ∧ Carries t c id) inputs

/-- After candidate `c` was opened, an `ApprovalPending` observation followed an
`Active` one. -/
def PendingEdge (fence : Fence) (inputs : List Input) (c : CandidateId) (id : String) : Prop :=
  SinceReset fence (fun earlier s a _ => ∃ startedAt now o,
    a = .observe .approvalPending true startedAt now ∧ s.observation = some o ∧
      o.status = .active ∧ Opened fence earlier c id) inputs

/-- Candidate `c` was resolved: by a `PostToolUse` of its own tool id, or by an
`Active` observation that followed the `ApprovalPending` of its pending edge. -/
def Resolved (fence : Fence) (inputs : List Input) (c : CandidateId) (id : String) : Prop :=
  SinceReset fence (fun earlier s a _ =>
    (∃ now, a = .hook .postToolUse (some id) now ∧ Opened fence earlier c id) ∨
    (∃ startedAt now o, a = .observe .active true startedAt now ∧ s.observation = some o ∧
      o.status = .approvalPending ∧ PendingEdge fence earlier c id)) inputs

def Shown (fence : Fence) (inputs : List Input) (c : CandidateId) (f : Fence) : Prop :=
  SinceReset fence (fun _ s a _ => a = .acknowledgeShow (.showWait c f) ∧
    (s.acknowledgeShow (.showWait c f)).2 = true) inputs

/-- `o` came from a complete single-root observation. -/
def Observed (fence : Fence) (inputs : List Input) (o : Observation) : Prop :=
  SinceReset fence (fun _ _ a _ => ∃ now, a = .observe o.status true o.startedAt now) inputs

def evidence (fence : Fence) (inputs : List Input) : Evidence where
  pre := PreSeen fence inputs
  opened := Opened fence inputs
  pending := PendingEdge fence inputs
  resolved := Resolved fence inputs
  shown := Shown fence inputs
  observed := Observed fence inputs

structure Evidence.Le (E E' : Evidence) : Prop where
  pre : ∀ id, E.pre id → E'.pre id
  opened : ∀ c id, E.opened c id → E'.opened c id
  pending : ∀ c id, E.pending c id → E'.pending c id
  resolved : ∀ c id, E.resolved c id → E'.resolved c id
  shown : ∀ c f, E.shown c f → E'.shown c f
  observed : ∀ o, E.observed o → E'.observed o

theorem evidence_le (fence : Fence) (inputs : List Input) {a : Input} (ha : ¬ a.isReset) :
    (evidence fence inputs).Le (evidence fence (a :: inputs)) where
  pre _ h := h.later ha
  opened _ _ h := h.later ha
  pending _ _ h := h.later ha
  resolved _ _ h := h.later ha
  shown _ _ h := h.later ha
  observed _ h := h.later ha

variable {E : Evidence}

theorem Core.mono {E' : Evidence} (h : Core E r) (hle : E.Le E') :
    Core E' r where
  records := by
    intro record hmem
    have hold := h.records record hmem
    refine ⟨hold.toolId, fun hp id hid => hle.pre _ (hold.pre hp id hid), ?_⟩
    intro c hc helig
    obtain ⟨id, hid, hopen, hpend⟩ := hold.candidate c hc helig
    exact ⟨id, hid, hle.opened _ _ hopen, fun hs => hle.pending _ _ (hpend hs)⟩
  shown w hw hs := hle.shown _ _ (h.shown w hw hs)
  observed o ho := hle.observed _ (h.observed o ho)
  pendingClear effect heff := by
    obtain ⟨hl, w, id, hw, hs, hne, heq, hopen, hres⟩ := h.pendingClear effect heff
    exact ⟨hl, w, id, hw, hs, hne, heq, hle.opened _ _ hopen, hle.resolved _ _ hres⟩

theorem Core.preSeen {record : Record}
    {id : String} (h : Core E r) (hby : OpensBy r now record id) : E.pre id := by
  obtain ⟨-, -, hone, hpre, hid, -⟩ := hby
  have hmem : record ∈ r.records := by
    have : record ∈ r.records.filter (fun record => !record.completed) := by simp [hone]
    exact mem_of_mem_filter this
  exact (h.records record hmem).pre hpre id hid

variable {fence : Fence} {inputs : List Input}

theorem core_apply (hrun : Run Step (new fence) inputs r) (h : Core (evidence fence inputs) r)
    (a : Input) :
    Core (evidence fence (a :: inputs)) (r.apply a).1 := by
  by_cases hreset : a.isReset
  · cases a with
    | hook event toolId now =>
      cases event with
      | stop => exact core_reset _ _
      | userPromptSubmit => exact core_reset _ _
      | _ => exact hreset.elim
    | invalidate f =>
      have hempty := core_reset (evidence fence (.invalidate f :: inputs)) r
      exact ⟨hempty.records, by simp [ApprovalReducer.apply, invalidate, reset],
        hempty.observed, by simp [ApprovalReducer.apply, invalidate, reset]⟩
    | _ => exact hreset.elim
  · have hkept := h.mono (evidence_le fence inputs hreset)
    have hstep : Step r a (r.apply a).1 := rfl
    cases a with
    | hook event toolId now =>
      refine core_hook hkept event toolId now ?_ ?_ ?_
      · rintro rfl id rfl
        exact Occurred.here hrun hstep ⟨now, rfl⟩
      · rintro rfl record id hby hcarry
        exact Occurred.here hrun hstep ⟨toolId, now, record, rfl, hby, h.preSeen hby, rfl, hcarry⟩
      · rintro rfl c id rfl hopen
        refine Occurred.here hrun hstep (.inl ⟨now, rfl, hopen.earlier ?_⟩)
        simp
    | observe status complete startedAt now =>
      refine core_observe hkept status complete startedAt now ?_ ?_ ?_
      · rintro rfl
        exact Occurred.here hrun hstep ⟨now, rfl⟩
      · rintro rfl rfl o ho hos c id hopen
        refine Occurred.here hrun hstep ⟨startedAt, now, o, rfl, ho, hos, hopen.earlier ?_⟩
        simp
      · rintro rfl rfl o ho hos c id hpend
        refine Occurred.here hrun hstep (.inr ⟨startedAt, now, o, rfl, ho, hos, hpend.earlier ?_⟩)
        simp
    | tick now => exact core_tick hkept now
    | invalidate f => exact absurd trivial hreset
    | disconnected => exact core_disconnected hkept
    | acknowledgeShow effect =>
      refine core_acknowledgeShow hkept effect ?_
      rintro c f rfl hack
      exact Occurred.here hrun hstep ⟨rfl, hack⟩
    | acknowledgeClear effect => exact core_acknowledgeClear hkept effect

theorem issuedClear_apply (h : Inv E r) (a : Input) :
    IssuedClear (r.apply a).1 := by
  cases a with
  | hook event toolId now => exact issuedClear_hook r event toolId now
  | observe status complete startedAt now => exact issuedClear_observe r _ _ _ _
  | tick now => exact issuedClear_tick h now
  | invalidate f => exact issuedClear_of_none rfl
  | disconnected => exact issuedClear_of_none (by simp [ApprovalReducer.apply, disconnected])
  | acknowledgeShow effect => exact issuedClear_acknowledgeShow h.issued effect
  | acknowledgeClear effect => exact issuedClear_acknowledgeClear h.issued effect

theorem reachable_inv (h : Run Step (new fence) inputs r) :
    Inv (evidence fence inputs) r := by
  refine Run.history (fun inputs r => Inv (evidence fence inputs) r) ?_ ?_ h
  · exact ⟨core_reset _ (new fence), issuedClear_of_none rfl⟩
  · intro inputs s a t hrun hinv hstep
    rw [hstep]
    exact ⟨core_apply hrun hinv.core a, issuedClear_apply hinv a⟩

/-! ## Returned effects -/

/-- What a call returns is what it issued, and a clear is issued at the time the
call was given. -/
def Returns (now : Instant) (p : ApprovalReducer × List Effect) : Prop :=
  ∀ effect ∈ p.2, p.1.issued = some effect ∧
    ∀ c f, effect = .clearWait c f → p.1.clock = some now

theorem returns_displayDue (r : ApprovalReducer) (now : Instant) :
    Returns now (r.displayDue now) := by
  obtain heq | ⟨c, f, heq⟩ := displayDue_cases r now
  · rw [heq]
    intro effect heff
    cases heff
  · rw [heq]
    intro effect heff
    rw [mem_singleton] at heff
    subst heff
    exact ⟨rfl, by simp⟩

theorem returns_issue (h : r.clock = some now)
    (effect : Effect) : Returns now (r.issue effect) := by
  intro effect' heff
  simp only [issue, mem_singleton] at heff
  subst heff
  exact ⟨rfl, fun _ _ _ => h⟩

theorem returns_hook (r : ApprovalReducer) (event : HookEvent) (toolId : Option String)
    (now : Instant) : Returns now (r.hook event toolId now) := by
  cases event with
  | stop => intro effect heff; cases heff
  | userPromptSubmit => intro effect heff; cases heff
  | preToolUse => exact returns_displayDue _ now
  | permissionRequest => exact returns_displayDue _ now
  | postToolUse =>
    rw [hook_postToolUse]
    split
    · rename_i r' effect heq
      obtain ⟨hl, hw, -, -, hc⟩ := post_some heq
      exact returns_issue (hc.trans (postStart_unlocked hl hw).1) effect
    · exact returns_displayDue _ now

theorem returns_observed (h : r.clock = some now) (previous : Option NativeStatus)
    (status : NativeStatus) (startedAt : Instant) :
    Returns now (r.observed previous status startedAt now) := by
  cases status with
  | approvalPending => exact returns_displayDue _ now
  | active =>
    unfold observed
    simp only
    split
    · rename_i r' effect heq
      obtain ⟨-, -, -, hc⟩ := observeActive_some heq
      exact returns_issue (hc.trans h) effect
    · exact returns_displayDue _ now
  | userInputPending => exact returns_displayDue _ now
  | unavailable => exact returns_displayDue _ now

theorem returns_observe (r : ApprovalReducer) (status : NativeStatus) (complete : Bool)
    (startedAt now : Instant) : Returns now (r.observe status complete startedAt now) := by
  unfold observe
  simp only
  split
  · exact returns_displayDue _ now
  · rename_i hgo
    simp only [Bool.or_eq_true, Bool.not_eq_true', not_or, Bool.not_eq_false] at hgo
    have hclock := advanceClock_clock hgo.1.1.1
    split
    · split
      · exact returns_issue hclock _
      · refine returns_observed ?_ _ _ _
        exact hclock
    · refine returns_observed ?_ _ _ _
      exact hclock

theorem returns_tick (h : Inv E r) (now : Instant) :
    Returns now (r.tick now) := by
  rw [tick_eq]
  split
  · rename_i effect hp
    exact returns_issue ((tickStart_clear h now).1 ⟨effect, hp⟩).1 effect
  · exact returns_displayDue _ now

variable {c : CandidateId} {f : Fence}

theorem apply_returns (h : Inv E r) (a : Input) (heff : .clearWait c f ∈ (r.apply a).2) :
    ∃ now, a.now = some now ∧ (r.apply a).1.clock = some now ∧
      (r.apply a).1.issued = some (.clearWait c f) := by
  have hreturns : ∀ {p : ApprovalReducer × List Effect} {now : Instant}, Returns now p →
      .clearWait c f ∈ p.2 → p.1.clock = some now ∧ p.1.issued = some (.clearWait c f) := by
    intro p now hp hmem
    obtain ⟨hissued, hclock⟩ := hp _ hmem
    exact ⟨hclock c f rfl, hissued⟩
  cases a with
  | hook event toolId now => exact ⟨now, rfl, hreturns (returns_hook r event toolId now) heff⟩
  | observe status complete startedAt now =>
    exact ⟨now, rfl, hreturns (returns_observe r status complete startedAt now) heff⟩
  | tick now => exact ⟨now, rfl, hreturns (returns_tick h now) heff⟩
  | invalidate f => cases heff
  | disconnected => cases heff
  | acknowledgeShow effect => cases heff
  | acknowledgeClear effect => cases heff

/-! ## Clear authority -/

/-- The reducer `r` after `inputs` has authority to clear candidate `c` under fence `f`. -/
structure ClearEarned (fence : Fence) (inputs : List Input) (r : ApprovalReducer)
    (c : CandidateId) (f : Fence) : Prop where
  current : f = r.fence
  unlocked : r.locked = false
  shown : Shown fence inputs c f
  fresh : ∃ o now, r.observation = some o ∧ Observed fence inputs o ∧ r.clock = some now ∧
    observationIsFresh o.startedAt now = true
  resolved : ∃ id, id ≠ "" ∧ Opened fence inputs c id ∧ Resolved fence inputs c id

theorem Inv.clearEarned (h : Inv (evidence fence inputs) r)
    (hi : r.issued = some (.clearWait c f)) : ClearEarned fence inputs r c f := by
  obtain ⟨hp, now, hclock, hfresh⟩ := h.issued c f hi
  obtain ⟨hl, wait, id, hw, hs, hne, heq, hopen, hres⟩ := h.core.pendingClear _ hp
  cases heq
  obtain ⟨o, ho, hof⟩ := (Option.any_eq_true _ _).mp hfresh
  exact ⟨rfl, hl, h.core.shown wait hw hs, ⟨o, now, ho, h.core.observed o ho, hclock, hof⟩,
    ⟨id, hne, hopen, hres⟩⟩

theorem run_locked {r' : ApprovalReducer} {later : List Input} (hl : r.locked = true)
    (h : Run Step r later r') (hno : ∀ a ∈ later, ¬ a.isReset) : r'.locked = true := by
  induction h with
  | start => exact hl
  | next _ hstep ih =>
    rename_i as s t a _
    have hs := ih (fun b hb => hno b (mem_cons_of_mem _ hb))
    rw [hstep]
    exact apply_locked hs a (hno a mem_cons_self)

/-- Clear authority is sound: in every run, a clear that is accepted or returned
is earned, a returned one at the time of the call, and after a lock no clear is
accepted or returned before a reset. -/
theorem clear_authority_sound (fence : Fence) (inputs : List Input) (r : ApprovalReducer)
    (h : Run Step (new fence) inputs r) :
    (∀ c f, r.accepts (.clearWait c f) = true → ClearEarned fence inputs r c f) ∧
    (∀ a c f, .clearWait c f ∈ (r.apply a).2 →
      ClearEarned fence (a :: inputs) (r.apply a).1 c f ∧
        ∃ now, a.now = some now ∧ (r.apply a).1.clock = some now) ∧
    (r.locked = true → ∀ later r', Run Step r later r' → (∀ a ∈ later, ¬ a.isReset) →
      ∀ c f, r'.accepts (.clearWait c f) = false ∧
        ∀ a, .clearWait c f ∉ (r'.apply a).2) := by
  refine ⟨?_, ?_, ?_⟩
  · intro c f hacc
    exact (reachable_inv h).clearEarned (by simpa [accepts] using hacc)
  · intro a c f heff
    obtain ⟨now, hnow, hclock, hissued⟩ := apply_returns (reachable_inv h) a heff
    have hinv := reachable_inv (h.next (a := a) rfl)
    exact ⟨hinv.clearEarned hissued, now, hnow, hclock⟩
  · intro hl later r' hrun hno c f
    have hl' := run_locked hl hrun hno
    have hinv := reachable_inv (h.append hrun)
    refine ⟨?_, ?_⟩
    · rw [Bool.eq_false_iff]
      intro hacc
      have := (hinv.clearEarned (by simpa [accepts] using hacc)).unlocked
      rw [hl'] at this
      cases this
    · intro a heff
      obtain ⟨now, hnow, -, hissued⟩ := apply_returns hinv a heff
      have hearned := (reachable_inv ((h.append hrun).next (a := a) rfl)).clearEarned hissued
      -- a reset returns nothing, so the call keeps the lock
      have hreset : ¬ a.isReset := by
        intro hr
        cases a with
        | hook event toolId now =>
          cases event with
          | stop => cases heff
          | userPromptSubmit => cases heff
          | _ => exact hr.elim
        | invalidate f => cases heff
        | _ => exact hr.elim
      have := apply_locked hl' a hreset
      rw [hearned.unlocked] at this
      cases this

/-- The reducer after `inputs`, newest first. -/
def after (fence : Fence) (inputs : List Input) : ApprovalReducer :=
  inputs.foldr (fun a r => (r.apply a).1) (new fence)

theorem run_after (fence : Fence) (inputs : List Input) :
    Run Step (new fence) inputs (after fence inputs) := by
  induction inputs with
  | nil => exact .start
  | cons a inputs ih => exact ih.next rfl

/-- A request that goes pending two seconds after its receipt and is shown. -/
def shownRequest (fence : Fence) : List Input :=
  [.acknowledgeShow (.showWait 1 fence),
   .observe .approvalPending true 2_000_000_005 2_000_000_005,
   .hook .permissionRequest (some "call") 5,
   .observe .active true 3 4,
   .hook .preToolUse (some "call") 1]

theorem shown_request_cleared :
    .clearWait 1 ⟨0, 0, 0, 0⟩ ∈ ((after ⟨0, 0, 0, 0⟩ (shownRequest ⟨0, 0, 0, 0⟩)).apply
      (.observe .active true 2_000_000_006 2_000_000_007)).2 ∧
    ClearEarned ⟨0, 0, 0, 0⟩
      (.observe .active true 2_000_000_006 2_000_000_007 :: shownRequest ⟨0, 0, 0, 0⟩)
      ((after ⟨0, 0, 0, 0⟩ (shownRequest ⟨0, 0, 0, 0⟩)).apply
        (.observe .active true 2_000_000_006 2_000_000_007)).1 1 ⟨0, 0, 0, 0⟩ := by
  have hmem : .clearWait 1 ⟨0, 0, 0, 0⟩ ∈
      ((after ⟨0, 0, 0, 0⟩ (shownRequest ⟨0, 0, 0, 0⟩)).apply
        (.observe .active true 2_000_000_006 2_000_000_007)).2 := by decide
  exact ⟨hmem, ((clear_authority_sound _ _ _ (run_after _ (shownRequest _))).2.1 _ _ _ hmem).1⟩

end Orkworksd.CodexApproval
