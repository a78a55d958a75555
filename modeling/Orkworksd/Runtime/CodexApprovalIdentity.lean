import Orkworksd.Runtime.CodexApprovalWait

/- Candidate identity of the approval reducer.

   `keys` is what identity rests on: the tool id of every record and whether it has
   been given a candidate. Five steps edit the table, and on `keys` they do three
   things only: nothing, append a tool id that is not there yet, or give a record its
   candidate. The bound, the distinctness of the tool ids and "one tool id
   opens one wait" (`Spent`) are read off that. The ids of waits come from the supply
   (`apply_supply`) and from what a call can do to the wait (`apply_wait`).

   Main result: `candidate_identity_unique`. -/
namespace Orkworksd.CodexApproval
open Lib ApprovalReducer

/-! ## The table -/

def Record.key (record : Record) : Option String × Bool := (record.toolId, record.candidate.isSome)

def ApprovalReducer.keys (r : ApprovalReducer) : List (Option String × Bool) :=
  r.records.map Record.key

def ApprovalReducer.toolIds (r : ApprovalReducer) : List (Option String) := r.keys.map Prod.fst

/-- The last id handed out, and whether the ids have run out. -/
def ApprovalReducer.supply (r : ApprovalReducer) : Nat × Bool := (r.nextCandidate, r.exhausted)

/-- What the calls that edit no table keep: the keys and the supply. -/
def ApprovalReducer.account (r : ApprovalReducer) : List (Option String × Bool) × Nat × Bool :=
  (r.keys, r.supply)

/-- The tool ids are within the bound, and the known ones pairwise distinct. -/
structure Table (ids : List (Option String)) : Prop where
  bounded : ids.length ≤ maxRecords
  distinct : (ids.filterMap id).Nodup

/-- What a call may do to the tool ids: nothing, or append one that is not there. -/
def Extends (ids ids' : List (Option String)) : Prop :=
  ids' = ids ∨ (ids.length < maxRecords ∧
    ∃ t, (∀ id, t = some id → some id ∉ ids) ∧ ids' = ids ++ [t])

theorem Table.extends {ids ids' : List (Option String)} (h : Table ids) (hext : Extends ids ids') :
    Table ids' := by
  rcases hext with rfl | ⟨hlt, t, hfresh, rfl⟩
  · exact h
  · refine ⟨by rw [List.length_append]; exact hlt, ?_⟩
    rw [List.filterMap_append]
    cases t with
    | none => simpa using h.distinct
    | some id =>
      have hnot : id ∉ ids.filterMap (fun x => x) := by
        intro hmem
        obtain ⟨x, hx, rfl⟩ := List.mem_filterMap.mp hmem
        exact hfresh id rfl hx
      rw [List.nodup_append]
      refine ⟨h.distinct, by simp, ?_⟩
      intro a ha b hb heq
      have hb : b = id := by simpa using hb
      subst hb
      subst heq
      exact hnot ha

variable {r : ApprovalReducer}

namespace ApprovalReducer

variable (r : ApprovalReducer)

variable {r' : ApprovalReducer}

theorem account_lock : r.lock.account = r.account := by
  refine congrArg (·, r.supply) ?_
  show (r.records.map Record.revoke).map Record.key = r.records.map Record.key
  rw [List.map_map]
  refine List.map_congr_left (fun record _ => ?_)
  show (record.toolId, (record.candidate.map _).isSome) = _
  rw [Option.isSome_map]
  rfl

theorem account_lockIf (condition : Bool) : (r.lockIf condition).account = r.account := by
  cases condition
  · rfl
  · exact account_lock r

variable (now : Instant)

theorem account_advanceClock : (r.advanceClock now).1.account = r.account := by
  unfold advanceClock
  split
  · exact account_lock r
  · rfl

theorem account_displayDue : (r.displayDue now).1.account = r.account := by
  obtain heq | ⟨c, f, heq⟩ := displayDue_cases r now
  · rw [heq]
  · rw [heq]
    rfl

theorem account_hookStart : (hookStart r now).account = r.account := by
  unfold hookStart
  rw [account_advanceClock, account_lockIf]
  rfl

theorem account_postStart : (postStart r now).account = r.account := by
  unfold postStart
  rw [account_lockIf, account_hookStart]

variable (i : Nat)

theorem keys_modify {l : List Record} (f : Record → Record)
    (hf : ∀ record, l[i]? = some record → (f record).key = record.key) :
    (l.modify i f).map Record.key = l.map Record.key := by
  refine List.ext_getElem? (fun j => ?_)
  rw [List.getElem?_map, List.getElem?_map, List.getElem?_modify]
  split
  · rename_i hij
    subst hij
    cases hrec : l[i]? with
    | none => rfl
    | some record => exact congrArg some (hf record hrec)
  · cases l[j]? <;> rfl

variable (index : Nat)

theorem account_completeRecord : (r.completeRecord index).account = r.account :=
  congrArg (·, r.supply) (keys_modify index _ (fun _ _ => rfl))

theorem account_markPendingEdge : (r.markPendingEdge index).account = r.account := by
  refine congrArg (·, r.supply) (keys_modify index _ (fun record _ => ?_))
  show (record.toolId, (record.candidate.map _).isSome) = _
  rw [Option.isSome_map]
  rfl

theorem account_setCandidate {index : Nat} {record : Record}
    (hrec : r.records[index]? = some record) (hc : record.candidate.isSome = true)
    (c' : Candidate) : (r.setCandidate (some index) c').account = r.account := by
  refine congrArg (·, r.supply) (keys_modify index _ (fun record' hrec' => ?_))
  rw [hrec] at hrec'
  cases hrec'
  show (record.toolId, true) = (record.toolId, record.candidate.isSome)
  rw [hc]

theorem account_retire : (r.retire index).1.account = r.account := by
  rcases retire_cases r index with heq | ⟨record, c, hrec, hc, hcases⟩
  · rw [heq]
  · have hset := account_setCandidate r hrec (by rw [hc]; rfl) { c with retired := true }
    rcases hcases with heq | ⟨_, _, _, heq⟩ | ⟨_, _, _, _, _, _, heq⟩
    · rw [heq]
      exact hset
    · rw [heq]
      exact hset
    · rw [heq]
      exact hset

variable (previous : Option NativeStatus)

theorem account_observePending (startedAt : Instant) :
    (r.observePending previous startedAt).account = r.account := by
  unfold observePending
  split
  · rfl
  · simp only
    split
    · split
      · exact account_markPendingEdge r _
      · split
        · rfl
        · exact account_lock r
    · exact account_lock r

theorem account_observeActive : (r.observeActive previous).1.account = r.account := by
  unfold observeActive
  split
  · split
    · split
      · exact account_retire r _
      · rfl
    · rfl
  · rfl

variable (status : NativeStatus)

theorem account_observed (startedAt now : Instant) :
    (r.observed previous status startedAt now).1.account = r.account := by
  cases status with
  | approvalPending =>
    show ((r.observePending previous startedAt).displayDue now).1.account = _
    rw [account_displayDue, account_observePending]
  | active =>
    have hactive := account_observeActive r previous
    simp only [observed]
    split
    · rename_i heq
      rw [heq] at hactive
      exact hactive
    · rename_i heq
      rw [heq] at hactive
      rw [account_displayDue]
      exact hactive
  | userInputPending =>
    show (r.lock.displayDue now).1.account = _
    rw [account_displayDue, account_lock]
  | unavailable =>
    show (ApprovalReducer.displayDue
      { r.lockIf r.wait.isSome with observation := none } now).1.account = _
    rw [account_displayDue]
    exact account_lockIf r _

theorem account_observe (complete : Bool) (startedAt now : Instant) :
    (r.observe status complete startedAt now).1.account = r.account := by
  have hclock :
      (ApprovalReducer.advanceClock { r with issued := none } now).1.account = r.account :=
    account_advanceClock _ now
  unfold observe
  simp only
  split
  · rw [account_displayDue]
    exact (account_lock _).trans hclock
  · split
    · split
      · exact hclock
      · rw [account_observed]
        exact (account_lock _).trans hclock
    · rw [account_observed]
      exact hclock

theorem account_tick : (r.tick now).1.account = r.account := by
  have hstart : (tickStart r now).account = r.account := by
    have hclock : (tickClock r now).account = r.account := by
      unfold tickClock
      split
      · exact account_advanceClock r now
      · exact account_advanceClock r now
    unfold tickStart
    split
    · rw [account_lock]
      split
      · exact hclock
      · exact hclock
    · exact hclock
  rw [tick_eq]
  split
  · exact hstart
  · rw [account_displayDue]
    exact hstart

/-! ### The steps that edit the table -/

theorem find_eq_none {id : String} (h : r.find id = none) : some id ∉ r.toolIds := by
  intro hmem
  obtain ⟨k, hk, hid⟩ := List.mem_map.mp hmem
  obtain ⟨record, hrec, rfl⟩ := List.mem_map.mp hk
  have hno := List.findIdx?_eq_none_iff.mp h record hrec
  have hid : record.toolId = some id := hid
  rw [hid] at hno
  simp at hno

theorem keys_of {r : ApprovalReducer} (h : r'.account = r.account) : r'.keys = r.keys :=
  congrArg Prod.fst h

theorem supply_of {r : ApprovalReducer} (h : r'.account = r.account) : r'.supply = r.supply :=
  congrArg Prod.snd h

theorem toolIds_of {r : ApprovalReducer} (h : r'.account = r.account) : r'.toolIds = r.toolIds :=
  congrArg (List.map Prod.fst) (keys_of h)

variable (toolId : Option String)

variable (hasPre completed : Bool)

theorem keys_addRecord :
    (maxRecords ≤ r.keys.length ∧ r.addRecord toolId hasPre completed = (r.lock, none))
      ∨ (r.keys.length < maxRecords
        ∧ (r.addRecord toolId hasPre completed).1.keys = r.keys ++ [(toolId, false)]
        ∧ (r.addRecord toolId hasPre completed).2 = some r.records.length
        ∧ (r.addRecord toolId hasPre completed).1.records[r.records.length]?
          = some ⟨toolId, hasPre, completed, none⟩) := by
  have hlen : r.keys.length = r.records.length := List.length_map ..
  unfold addRecord
  split
  · rename_i hfull
    exact .inl ⟨by omega, rfl⟩
  · rename_i hfull
    refine .inr ⟨by omega, ?_, rfl, ?_⟩
    · show (r.records ++ _).map Record.key = _
      rw [List.map_append]
      rfl
    · show (r.records ++ _)[r.records.length]? = _
      rw [List.getElem?_append_right (Nat.le_refl _), Nat.sub_self]
      rfl

theorem extends_addRecord (hfresh : ∀ id, toolId = some id → some id ∉ r.toolIds) :
    Extends r.toolIds (r.addRecord toolId hasPre completed).1.toolIds := by
  rcases keys_addRecord r toolId hasPre completed with ⟨-, heq⟩ | ⟨hlt, hkeys, -, -⟩
  · rw [heq]
    exact .inl (toolIds_of (account_lock r))
  · refine .inr ⟨by rw [toolIds, List.length_map]; exact hlt, toolId, hfresh, ?_⟩
    rw [toolIds, hkeys, List.map_append]
    rfl

theorem extends_pre : Extends r.toolIds (r.pre toolId).toolIds := by
  unfold pre
  simp only
  split
  · exact .inl rfl
  · rename_i hnew
    have hkeys : ∀ c c' : Bool, ((r.lockIf c).lockIf c').toolIds = r.toolIds := fun c c' =>
      toolIds_of ((account_lockIf _ c').trans (account_lockIf r c))
    have hext := extends_addRecord
      ((r.lockIf (toolId.filter (fun id => !id.isEmpty)).isNone).lockIf
        ((r.lockIf (toolId.filter (fun id => !id.isEmpty)).isNone).records.any
          (fun record => !record.completed)))
      (toolId.filter (fun id => !id.isEmpty)) true false (by
        intro id hid
        rw [hkeys]
        rw [hid] at hnew
        refine find_eq_none r ?_
        simpa using hnew)
    rw [hkeys] at hext
    exact hext

theorem extends_post : Extends r.toolIds (r.post toolId).1.toolIds := by
  unfold post
  split
  · exact .inl (toolIds_of (account_lock r))
  · rename_i id hid
    split
    · rename_i hfind
      have hext := extends_addRecord r.lock (some id) false true (by
        intro x hx
        cases hx
        rw [toolIds_of (account_lock r)]
        exact find_eq_none r hfind)
      rw [toolIds_of (account_lock r)] at hext
      exact hext
    · split
      · exact .inl rfl
      · simp only
        split
        · exact .inl (toolIds_of (account_completeRecord r _))
        · exact .inl (toolIds_of ((account_retire _ _).trans (account_completeRecord r _)))

/-- What a permission request does to the table before it looks for a candidate: it
uses a record that is there, or appends one. -/
theorem permissionRecord_keys :
    ((r.permissionRecord toolId).1 = r ∧ ∃ i, (r.permissionRecord toolId).2 = some i)
      ∨ ∃ t, (∀ id, t = some id → toolId = some id ∧ some id ∉ r.toolIds)
          ∧ (toolId = none → t = none) ∧ (∀ id, toolId = some id → id ≠ "" → t = some id)
          ∧ r.permissionRecord toolId = r.lock.addRecord t false false := by
  unfold permissionRecord
  cases toolId with
  | some id =>
    simp only
    split
    · rename_i hempty
      refine .inr ⟨none, by simp, by simp, ?_, rfl⟩
      intro x hx hne
      cases hx
      exact absurd (String.isEmpty_iff.mp hempty) hne
    · cases hfind : r.find id with
      | some index => exact .inl ⟨rfl, index, rfl⟩
      | none =>
        refine .inr ⟨some id, ?_, by simp, ?_, rfl⟩
        · intro x hx
          cases hx
          exact ⟨rfl, find_eq_none r hfind⟩
        · intro x hx _
          exact hx.symm ▸ rfl
  | none =>
    simp only
    split
    · rename_i index _
      exact .inl ⟨rfl, index, rfl⟩
    · split
      · rename_i index _
        exact .inl ⟨rfl, index, rfl⟩
      · exact .inr ⟨none, by simp, by simp, by simp, rfl⟩

theorem keys_setCandidate_modify (c : Candidate) :
    (r.setCandidate (some i) c).keys = r.keys.modify i (fun k => (k.1, true)) := by
  refine List.ext_getElem? (fun j => ?_)
  show ((r.records.modify i _).map Record.key)[j]? = ((r.records.map Record.key).modify i _)[j]?
  rw [List.getElem?_map, List.getElem?_modify, List.getElem?_modify, List.getElem?_map]
  split
  · cases r.records[j]? <;> rfl
  · cases r.records[j]? <;> rfl

theorem setCandidate_keys (index : Option Nat) (c : Candidate) :
    (r.setCandidate index c).toolIds = r.toolIds
      ∧ (∀ k ∈ r.keys, k.2 = true → k ∈ (r.setCandidate index c).keys)
      ∧ ∀ i k, index = some i → r.keys[i]? = some k →
        (k.1, true) ∈ (r.setCandidate index c).keys := by
  cases index with
  | none => exact ⟨rfl, fun k hk _ => hk, fun i k hi => by cases hi⟩
  | some i =>
    have hkeys := keys_setCandidate_modify r i c
    have hget : ∀ j, (r.setCandidate (some i) c).keys[j]?
        = if i = j then r.keys[j]?.map (fun k => (k.1, true)) else r.keys[j]? := by
      intro j
      rw [hkeys, List.getElem?_modify]
      split
      · rfl
      · cases r.keys[j]? <;> rfl
    refine ⟨?_, ?_, ?_⟩
    · refine List.ext_getElem? (fun j => ?_)
      rw [toolIds, toolIds, List.getElem?_map, List.getElem?_map, hget]
      split
      · cases r.keys[j]? <;> rfl
      · rfl
    · intro k hk htrue
      obtain ⟨j, hj⟩ := List.getElem?_of_mem hk
      refine List.mem_of_getElem? (i := j) ?_
      rw [hget, hj]
      split
      · show some (k.1, true) = some k
        rw [← htrue]
      · rfl
    · intro j k hi hj
      cases hi
      refine List.mem_of_getElem? (i := i) ?_
      rw [hget, if_pos rfl, hj]
      rfl

theorem openCandidate_keys (index : Option Nat) (now : Instant) :
    (r.openCandidate index now).toolIds = r.toolIds
      ∧ (∀ k ∈ r.keys, k.2 = true → k ∈ (r.openCandidate index now).keys)
      ∧ ((r.openCandidate index now).wait ≠ r.wait → ∀ i k, index = some i →
          r.keys[i]? = some k → (k.1, true) ∈ (r.openCandidate index now).keys) := by
  unfold openCandidate
  simp only
  split
  · -- The ids have run out.
    have hkeys : ∀ c : Bool,
        ({ r.lockIf c with exhausted := true } : ApprovalReducer).lock.keys = r.keys := fun c =>
      (keys_of (account_lock ({ r.lockIf c with exhausted := true } : ApprovalReducer))).trans
        (congrArg Prod.fst (account_lockIf r c))
    refine ⟨congrArg (List.map Prod.fst) (hkeys _), fun k hk _ => by rw [hkeys]; exact hk, ?_⟩
    intro hwait
    exact absurd (by simp) hwait
  · have hset : ∀ (c : Bool) (next : Nat) (cand : Candidate),
        let q : ApprovalReducer :=
          ({ r.lockIf c with nextCandidate := next } : ApprovalReducer).setCandidate index cand
        q.toolIds = r.toolIds ∧ (∀ k ∈ r.keys, k.2 = true → k ∈ q.keys)
          ∧ ∀ i k, index = some i → r.keys[i]? = some k → (k.1, true) ∈ q.keys := by
      intro c next cand
      have hkeys : ({ r.lockIf c with nextCandidate := next } : ApprovalReducer).keys = r.keys :=
        congrArg Prod.fst (account_lockIf r c)
      obtain ⟨hids, hkept, hnew⟩ := setCandidate_keys
        ({ r.lockIf c with nextCandidate := next } : ApprovalReducer) index cand
      rw [hkeys] at hkept hnew
      exact ⟨hids.trans (congrArg (List.map Prod.fst) hkeys), hkept, hnew⟩
    split
    · exact ⟨(hset _ _ _).1, (hset _ _ _).2.1, fun _ => (hset _ _ _).2.2⟩
    · exact ⟨(hset _ _ _).1, (hset _ _ _).2.1, fun _ => (hset _ _ _).2.2⟩

/-- The tool id a permission request is about: that of the record it is put down to, or
its own where the table is full. -/
def requestTool (toolId : Option String) : Option String :=
  match (r.permissionRecord toolId).2 with
  | some i => ((r.permissionRecord toolId).1.records[i]?).bind (·.toolId)
  | none => toolId.filter (fun id => !id.isEmpty)

theorem extends_permission (now : Instant) :
    Extends r.toolIds (r.permission toolId now).toolIds := by
  have hrecord : Extends r.toolIds (r.permissionRecord toolId).1.toolIds := by
    rcases permissionRecord_keys r toolId with ⟨heq, -⟩ | ⟨t, hfresh, -, -, heq⟩
    · rw [heq]
      exact .inl rfl
    · have hlock := toolIds_of (account_lock r)
      have hext := extends_addRecord r.lock t false false (by
        intro id hid
        rw [hlock]
        exact (hfresh id hid).2)
      rw [hlock] at hext
      rw [heq]
      exact hext
  unfold permission
  simp only
  split
  · rw [toolIds_of (account_lockIf _ _)]
    exact hrecord
  · rw [(openCandidate_keys _ _ now).1]
    exact hrecord

end ApprovalReducer

theorem apply_table (r : ApprovalReducer) (a : Input) :
    (a.isReset ∧ (r.apply a).1.toolIds = []) ∨ Extends r.toolIds (r.apply a).1.toolIds := by
  cases a with
  | hook event toolId now =>
    cases event with
    | stop => exact .inl ⟨trivial, rfl⟩
    | userPromptSubmit => exact .inl ⟨trivial, rfl⟩
    | preToolUse =>
      show _ ∨ Extends r.toolIds (((hookStart r now).pre toolId).displayDue now).1.toolIds
      rw [toolIds_of (account_displayDue _ now), ← toolIds_of (account_hookStart r now)]
      exact .inr (extends_pre _ toolId)
    | permissionRequest =>
      show _ ∨
        Extends r.toolIds (((hookStart r now).permission toolId now).displayDue now).1.toolIds
      rw [toolIds_of (account_displayDue _ now), ← toolIds_of (account_hookStart r now)]
      exact .inr (extends_permission _ toolId now)
    | postToolUse =>
      have hpost := extends_post (postStart r now) toolId
      rw [toolIds_of (account_postStart r now)] at hpost
      show _ ∨ Extends r.toolIds (r.hook .postToolUse toolId now).1.toolIds
      rw [hook_postToolUse]
      split
      · rename_i heq
        rw [heq] at hpost
        exact .inr hpost
      · rename_i heq
        rw [heq] at hpost
        rw [toolIds_of (account_displayDue _ now)]
        exact .inr hpost
  | observe status complete startedAt now =>
    exact .inr (.inl (toolIds_of (account_observe r status complete startedAt now)))
  | tick now => exact .inr (.inl (toolIds_of (account_tick r now)))
  | invalidate f => exact .inl ⟨trivial, rfl⟩
  | disconnected =>
    exact .inr (.inl (toolIds_of (account_lockIf ({ r with
      issued := none, observation := none, lastObservationStart := none } : ApprovalReducer) _)))
  | acknowledgeShow effect =>
    refine .inr (.inl ?_)
    show (r.acknowledgeShow effect).1.toolIds = r.toolIds
    unfold acknowledgeShow
    repeat' split
    all_goals rfl
  | acknowledgeClear effect =>
    refine .inr (.inl ?_)
    show (r.acknowledgeClear effect).1.toolIds = r.toolIds
    unfold acknowledgeClear
    split <;> rfl

theorem table_after (fence : Fence) (inputs : List Input) : Table (after fence inputs).toolIds := by
  induction inputs with
  | nil => exact ⟨Nat.zero_le _, List.nodup_nil⟩
  | cons a inputs ih =>
    rcases apply_table (after fence inputs) a with ⟨-, hnil⟩ | hext
    · show Table ((after fence inputs).apply a).1.toolIds
      rw [hnil]
      exact ⟨Nat.zero_le _, List.nodup_nil⟩
    · exact ih.extends hext

/-! ## One tool id, one wait -/

theorem Table.unique {ids : List (Option String)} (h : Table ids) {i j : Nat} {id : String}
    (hi : ids[i]? = some (some id)) (hj : ids[j]? = some (some id)) : i = j := by
  have hpairs := List.pairwise_filterMap.mp h.distinct
  rw [List.pairwise_iff_getElem] at hpairs
  obtain ⟨hilt, hieq⟩ := List.getElem?_eq_some_iff.mp hi
  obtain ⟨hjlt, hjeq⟩ := List.getElem?_eq_some_iff.mp hj
  rcases Nat.lt_trichotomy i j with hlt | heq | hgt
  · exact absurd rfl (hpairs i j hilt hjlt hlt id hieq id hjeq)
  · exact heq
  · exact absurd rfl (hpairs j i hjlt hilt hgt id hjeq id hieq)

/-- The call opens a wait for the tool id. -/
def Opens (r : ApprovalReducer) (a : Input) (id : String) : Prop :=
  ∃ toolId now, a = .hook .permissionRequest toolId now ∧ r.wait = none ∧
    (r.apply a).1.wait ≠ none ∧ (hookStart r now).requestTool toolId = some id

/-- No wait can be opened for the tool id before the next reset: its record has its
candidate, or a wait nobody can clear is open. -/
def Spent (r : ApprovalReducer) (id : String) : Prop :=
  (some id, true) ∈ r.keys ∨ (r.locked = true ∧ r.wait ≠ none)

namespace ApprovalReducer

variable (r : ApprovalReducer)

theorem keys_getElem {i : Nat} {record : Record} (h : r.records[i]? = some record) :
    r.keys[i]? = some record.key := by
  rw [keys, List.getElem?_map, h]
  rfl

/-- The record of the tool id already has its candidate: the request opens nothing. -/
theorem permission_blocked (htable : Table r.toolIds) {id : String}
    (howned : (some id, true) ∈ r.keys) {toolId : Option String}
    (htool : r.requestTool toolId = some id) (now : Instant) :
    (r.permission toolId now).wait = r.wait := by
  obtain ⟨j, hj⟩ := List.getElem?_of_mem howned
  have hjid : r.toolIds[j]? = some (some id) := by
    rw [toolIds, List.getElem?_map, hj]
    rfl
  rcases permissionRecord_keys r toolId with ⟨heq, i, hi⟩ | ⟨t, hfresh, -, hown, heq⟩
  · rw [requestTool, hi, heq] at htool
    obtain ⟨record, hrec, hid⟩ := Option.bind_eq_some_iff.mp htool
    have hkey := keys_getElem r hrec
    have hiid : r.toolIds[i]? = some (some id) := by
      rw [toolIds, List.getElem?_map, hkey]
      exact congrArg some hid
    rw [htable.unique hjid hiid, hkey] at hj
    have hcand : record.candidate.isSome = true := (Prod.mk.inj (Option.some.inj hj)).2
    unfold permission
    simp only
    rw [if_pos]
    · rw [lockIf_wait, heq]
    · rw [hi, heq]
      simp [hrec, hcand]
  · -- A new record would carry a tool id that is not in the table.
    have hmem : some id ∈ r.toolIds := List.mem_of_getElem? hjid
    rcases keys_addRecord r.lock t false false with ⟨-, hfull⟩ | ⟨-, -, hindex, hrec⟩
    · rw [requestTool, heq, hfull] at htool
      obtain ⟨htoolId, hne⟩ := Option.filter_eq_some_iff.mp htool
      have hne : id ≠ "" := by
        intro hnil
        rw [hnil] at hne
        exact absurd hne (by decide)
      exact absurd hmem (hfresh id (hown id htoolId hne)).2
    · rw [requestTool, heq, hindex] at htool
      simp only [hrec, Option.bind_some] at htool
      exact absurd hmem (hfresh id htool).2

theorem permission_spends {id : String} {toolId : Option String}
    (htool : r.requestTool toolId = some id) (now : Instant)
    (hopen : (r.permission toolId now).wait ≠ r.wait) :
    (some id, true) ∈ (r.permission toolId now).keys ∨ (r.permission toolId now).locked = true := by
  have hwait := (permissionRecord_frame r toolId).1
  unfold permission at hopen ⊢
  simp only at hopen ⊢
  split at hopen
  · rw [lockIf_wait, hwait] at hopen
    exact absurd rfl hopen
  · rename_i hnew
    rw [if_neg hnew]
    cases hindex : (r.permissionRecord toolId).2 with
    | some i =>
      rw [requestTool, hindex] at htool
      obtain ⟨record, hrec, hid⟩ := Option.bind_eq_some_iff.mp htool
      rw [hindex] at hopen
      rw [← hwait] at hopen
      have hkeys := (openCandidate_keys (r.permissionRecord toolId).1 (some i) now).2.2 hopen i
        record.key rfl (keys_getElem _ hrec)
      have hkey : record.key.1 = some id := hid
      rw [hkey] at hkeys
      exact .inl hkeys
    | none =>
      refine .inr (openCandidate_locked ?_ none now)
      rcases permissionRecord_keys r toolId with ⟨-, i, hi⟩ | ⟨t, -, -, -, heq⟩
      · rw [hindex] at hi
        cases hi
      · rw [heq]
        exact addRecord_locked rfl ..

end ApprovalReducer

theorem owned_apply {k : Option String × Bool} (hk : k ∈ r.keys) (htrue : k.2 = true) {a : Input}
    (hreset : ¬ a.isReset) : k ∈ (r.apply a).1.keys := by
  have hadd : ∀ (q : ApprovalReducer) (toolId : Option String) (hasPre completed : Bool),
      k ∈ q.keys → k ∈ (q.addRecord toolId hasPre completed).1.keys := by
    intro q toolId hasPre completed hq
    rcases keys_addRecord q toolId hasPre completed with ⟨-, heq⟩ | ⟨-, hkeys, -, -⟩
    · rw [heq, keys_of (account_lock _)]
      exact hq
    · rw [hkeys]
      exact List.mem_append_left _ hq
  cases a with
  | hook event toolId now =>
    have hstart : k ∈ (hookStart r now).keys := by
      rw [keys_of (account_hookStart _ _)]
      exact hk
    cases event with
    | stop => exact absurd trivial hreset
    | userPromptSubmit => exact absurd trivial hreset
    | preToolUse =>
      show k ∈ (((hookStart r now).pre toolId).displayDue now).1.keys
      rw [keys_of (account_displayDue _ _)]
      unfold pre
      simp only
      split
      · exact hstart
      · refine hadd _ _ _ _ ?_
        rw [keys_of (account_lockIf _ _), keys_of (account_lockIf _ _)]
        exact hstart
    | permissionRequest =>
      show k ∈ (((hookStart r now).permission toolId now).displayDue now).1.keys
      rw [keys_of (account_displayDue _ _)]
      have hrecord : k ∈ ((hookStart r now).permissionRecord toolId).1.keys := by
        rcases permissionRecord_keys (hookStart r now) toolId with ⟨heq, -⟩ | ⟨t, -, -, -, heq⟩
        · rw [heq]
          exact hstart
        · rw [heq]
          refine hadd _ _ _ _ ?_
          rw [keys_of (account_lock _)]
          exact hstart
      unfold permission
      simp only
      split
      · rw [keys_of (account_lockIf _ _)]
        exact hrecord
      · exact (openCandidate_keys _ _ now).2.1 k hrecord htrue
    | postToolUse =>
      have hpost : k ∈ ((postStart r now).post toolId).1.keys := by
        have hstart : k ∈ (postStart r now).keys := by
          rw [keys_of (account_postStart _ _)]
          exact hk
        unfold post
        split
        · rw [keys_of (account_lock _)]
          exact hstart
        · split
          · refine hadd _ _ _ _ ?_
            rw [keys_of (account_lock _)]
            exact hstart
          · split
            · exact hstart
            · simp only
              split
              · rw [keys_of (account_completeRecord _ _)]
                exact hstart
              · rw [keys_of (account_retire _ _), keys_of (account_completeRecord _ _)]
                exact hstart
      show k ∈ (r.hook .postToolUse toolId now).1.keys
      rw [hook_postToolUse]
      split
      · rename_i heq
        rw [heq] at hpost
        exact hpost
      · rename_i heq
        rw [heq] at hpost
        rw [keys_of (account_displayDue _ _)]
        exact hpost
  | observe status complete startedAt now =>
    show k ∈ (r.observe status complete startedAt now).1.keys
    rw [keys_of (account_observe _ _ _ _ _)]
    exact hk
  | tick now =>
    show k ∈ (r.tick now).1.keys
    rw [keys_of (account_tick _ _)]
    exact hk
  | invalidate f => exact absurd trivial hreset
  | disconnected =>
    show k ∈ (({ r with issued := none, observation := none, lastObservationStart := none } :
      ApprovalReducer).lockIf r.wait.isSome).keys
    rw [keys_of (account_lockIf _ _)]
    exact hk
  | acknowledgeShow effect =>
    show k ∈ (r.acknowledgeShow effect).1.keys
    unfold acknowledgeShow
    repeat' split
    all_goals exact hk
  | acknowledgeClear effect =>
    show k ∈ (r.acknowledgeClear effect).1.keys
    unfold acknowledgeClear
    split <;> exact hk

section spent
variable {fence : Fence} {inputs : List Input} {id : String}

variable {a : Input}

theorem spent_of_opens (h : Opens r a id) : Spent (r.apply a).1 id := by
  obtain ⟨toolId, now, rfl, hnone, hopen, htool⟩ := h
  have hdue := displayDue_frame ((hookStart r now).permission toolId now) now
  have hopen' : ((hookStart r now).permission toolId now).wait ≠ (hookStart r now).wait := by
    rw [hookStart_wait, hnone]
    intro hwait
    exact hopen (hdue.1.trans hwait)
  rcases permission_spends (hookStart r now) htool now hopen' with howned | hlocked
  · refine .inl ?_
    show (some id, true) ∈ (((hookStart r now).permission toolId now).displayDue now).1.keys
    rw [keys_of (account_displayDue _ _)]
    exact howned
  · exact .inr ⟨displayDue_locked hlocked now, hopen⟩

theorem spent_apply (hs : Spent (after fence inputs) id) (hreset : ¬ a.isReset) :
    Spent (after fence (a :: inputs)) id := by
  rcases hs with howned | ⟨hlocked, hwait⟩
  · exact .inl (owned_apply howned rfl hreset)
  · obtain ⟨wait, hw⟩ := Option.ne_none_iff_exists'.mp hwait
    obtain ⟨w, hw', -⟩ := locked_wait_kept (reachable_inv (run_after fence inputs)).core hlocked hw
      hreset
    refine .inr ⟨apply_locked hlocked a hreset, ?_⟩
    show ((after fence inputs).apply a).1.wait ≠ none
    rw [hw']
    simp

theorem not_opens_of_spent (hs : Spent (after fence inputs) id) (a : Input) :
    ¬ Opens (after fence inputs) a id := by
  intro h
  obtain ⟨toolId, now, rfl, hnone, hopen, htool⟩ := h
  rcases hs with howned | ⟨-, hwait⟩
  · have htable : Table (hookStart (after fence inputs) now).toolIds := by
      rw [toolIds_of (account_hookStart _ now)]
      exact table_after fence inputs
    have hblocked := permission_blocked (hookStart (after fence inputs) now) htable
      (by rw [keys_of (account_hookStart _ _)]; exact howned) htool now
    rw [hookStart_wait, hnone] at hblocked
    exact hopen ((displayDue_frame _ now).1.trans hblocked)
  · exact hwait hnone

theorem spent_run (hs : Spent (after fence inputs) id) {later : List Input}
    (hno : ∀ x ∈ later, ¬ x.isReset) : Spent (after fence (later ++ inputs)) id := by
  induction later with
  | nil => exact hs
  | cons a later ih =>
    exact spent_apply (ih (fun x hx => hno x (List.mem_cons_of_mem a hx)))
      (hno a List.mem_cons_self)

end spent

/-! ## The supply of ids -/

namespace ApprovalReducer

variable (r : ApprovalReducer)

variable (toolId : Option String)

theorem supply_addRecord (hasPre completed : Bool) :
    (r.addRecord toolId hasPre completed).1.supply = r.supply := by
  unfold addRecord
  split <;> rfl

theorem supply_setCandidate (index : Option Nat) (c : Candidate) :
    (r.setCandidate index c).supply = r.supply := by
  cases index <;> rfl

theorem supply_pre : (r.pre toolId).supply = r.supply := by
  unfold pre
  simp only
  split
  · rfl
  · exact (supply_addRecord _ _ _ _).trans
      (supply_of ((account_lockIf _ _).trans (account_lockIf r _)))

theorem supply_post : (r.post toolId).1.supply = r.supply := by
  unfold post
  split
  · rfl
  · split
    · exact supply_addRecord _ _ _ _
    · split
      · rfl
      · simp only
        split
        · rfl
        · exact supply_of ((account_retire _ _).trans (account_completeRecord r _))

theorem openCandidate_supply (index : Option Nat) (now : Instant) :
    (r.nextCandidate + 1 < 2 ^ 64 ∧
        (r.openCandidate index now).supply = (r.nextCandidate + 1, r.exhausted))
      ∨ (2 ^ 64 ≤ r.nextCandidate + 1 ∧ (r.openCandidate index now).supply = (r.nextCandidate, true)
        ∧ (r.openCandidate index now).wait = r.wait) := by
  unfold openCandidate
  simp only
  split
  · rename_i hfull
    rw [lockIf_nextCandidate] at hfull
    refine .inr ⟨hfull, ?_, by simp⟩
    show ((r.lockIf _).nextCandidate, true) = _
    rw [lockIf_nextCandidate]
  · rename_i hroom
    rw [lockIf_nextCandidate] at hroom
    have hexhausted : ∀ c : Bool, (r.lockIf c).exhausted = r.exhausted := by
      intro c
      cases c <;> rfl
    refine .inl ⟨by omega, ?_⟩
    split
    · refine (supply_setCandidate _ index _).trans ?_
      show ((r.lockIf _).nextCandidate + 1, (r.lockIf _).exhausted) = _
      rw [lockIf_nextCandidate, hexhausted]
    · refine (supply_setCandidate _ index _).trans ?_
      show ((r.lockIf _).nextCandidate + 1, (r.lockIf _).exhausted) = _
      rw [lockIf_nextCandidate, hexhausted]

theorem permission_supply (now : Instant) : (r.permission toolId now).supply = r.supply
      ∨ (r.nextCandidate + 1 < 2 ^ 64 ∧
          (r.permission toolId now).supply = (r.nextCandidate + 1, r.exhausted))
      ∨ (2 ^ 64 ≤ r.nextCandidate + 1 ∧ (r.permission toolId now).supply = (r.nextCandidate, true)
        ∧ (r.permission toolId now).wait = r.wait) := by
  have hrecord : (r.permissionRecord toolId).1.supply = r.supply := by
    rcases permissionRecord_keys r toolId with ⟨heq, -⟩ | ⟨t, -, -, -, heq⟩
    · rw [heq]
    · rw [heq]
      exact supply_addRecord _ _ _ _
  obtain ⟨hnext, hexhausted⟩ := Prod.mk.inj hrecord
  have hwait := (permissionRecord_frame r toolId).1
  unfold permission
  simp only
  split
  · exact .inl ((supply_of (account_lockIf _ _)).trans hrecord)
  · have hopen := openCandidate_supply (r.permissionRecord toolId).1
      (r.permissionRecord toolId).2 now
    rw [hnext, hexhausted, hwait] at hopen
    exact .inr hopen

end ApprovalReducer

/-- What a call does to the supply: nothing, take the next id, or run out of ids without
opening a wait. -/
theorem apply_supply (r : ApprovalReducer) (a : Input) :
    (r.apply a).1.supply = r.supply
      ∨ (r.nextCandidate + 1 < 2 ^ 64 ∧ (r.apply a).1.supply = (r.nextCandidate + 1, r.exhausted))
      ∨ (2 ^ 64 ≤ r.nextCandidate + 1 ∧ (r.apply a).1.supply = (r.nextCandidate, true)
        ∧ (r.apply a).1.wait = r.wait) := by
  cases a with
  | hook event toolId now =>
    cases event with
    | stop =>
      exact .inl
        (congrArg Prod.snd (account_lockIf ({ r with issued := none } : ApprovalReducer) _))
    | userPromptSubmit =>
      exact .inl
        (congrArg Prod.snd (account_lockIf ({ r with issued := none } : ApprovalReducer) _))
    | preToolUse =>
      refine .inl ?_
      show (((hookStart r now).pre toolId).displayDue now).1.supply = _
      rw [supply_of (account_displayDue _ _), supply_pre, supply_of (account_hookStart _ _)]
    | permissionRequest =>
      have hrequest := permission_supply (hookStart r now) toolId now
      obtain ⟨hnext, hexhausted⟩ := Prod.mk.inj (supply_of (account_hookStart r now))
      rw [supply_of (account_hookStart _ _), hnext, hexhausted, hookStart_wait,
        ← supply_of (account_displayDue _ now), ← (displayDue_frame _ now).1] at hrequest
      exact hrequest
    | postToolUse =>
      have hpost := supply_post (postStart r now) toolId
      have hstart : (postStart r now).supply = r.supply :=
        supply_of ((account_lockIf _ _).trans (account_hookStart r now))
      refine .inl ?_
      show (r.hook .postToolUse toolId now).1.supply = _
      rw [hook_postToolUse]
      split
      · rename_i heq
        rw [heq] at hpost
        exact hpost.trans hstart
      · rename_i heq
        rw [heq] at hpost
        rw [supply_of (account_displayDue _ _)]
        exact hpost.trans hstart
  | observe status complete startedAt now =>
    exact .inl (supply_of (account_observe r status complete startedAt now))
  | tick now => exact .inl (supply_of (account_tick r now))
  | invalidate f => exact .inl rfl
  | disconnected =>
    exact .inl (supply_of (account_lockIf ({ r with
      issued := none, observation := none, lastObservationStart := none } : ApprovalReducer) _))
  | acknowledgeShow effect =>
    refine .inl ?_
    show (r.acknowledgeShow effect).1.supply = _
    unfold acknowledgeShow
    repeat' split
    all_goals rfl
  | acknowledgeClear effect =>
    refine .inl ?_
    show (r.acknowledgeClear effect).1.supply = _
    unfold acknowledgeClear
    split <;> rfl

/-! ## The waits of a run -/

/-- The candidate of the wait a call opens. -/
def openedBy (r : ApprovalReducer) (a : Input) : Option CandidateId :=
  if r.wait.isNone then (r.apply a).1.wait.map (·.candidate) else none

/-- The candidates of the waits a run opened, oldest first; the inputs are newest first. -/
def openings (fence : Fence) : List Input → List CandidateId
  | [] => []
  | a :: inputs => openings fence inputs ++ (openedBy (after fence inputs) a).toList

/-- The last effect a call of the run returned. -/
def lastIssued (fence : Fence) : List Input → Option Effect
  | [] => none
  | a :: inputs => ((after fence inputs).apply a).2.getLast?.or (lastIssued fence inputs)

/-- The waits opened so far take their ids in order from the supply. -/
structure Supplied (r : ApprovalReducer) (ids : List CandidateId) : Prop where
  increasing : ids.Pairwise (· < ·)
  counted : ∀ id ∈ ids, id ≤ r.nextCandidate
  fits : r.nextCandidate < 2 ^ 64
  current : ∀ wait, r.wait = some wait → ids.getLast? = some wait.candidate
  spent : r.exhausted = true → 2 ^ 64 ≤ r.nextCandidate + 1

variable {ids : List CandidateId}

variable {r' : ApprovalReducer}

theorem Supplied.of_kept (h : Supplied r ids) (hsupply : r'.supply = r.supply
      ∨ (r.nextCandidate + 1 < 2 ^ 64 ∧ r'.supply = (r.nextCandidate + 1, r.exhausted))
      ∨ (2 ^ 64 ≤ r.nextCandidate + 1 ∧ r'.supply = (r.nextCandidate, true)))
    (hcurrent : ∀ wait, r'.wait = some wait → ids.getLast? = some wait.candidate) :
    Supplied r' ids := by
  have hnext : r.nextCandidate ≤ r'.nextCandidate ∧ r'.nextCandidate < 2 ^ 64 ∧
      (r'.exhausted = true → 2 ^ 64 ≤ r'.nextCandidate + 1) := by
    have hfits := h.fits
    rcases hsupply with heq | ⟨hroom, heq⟩ | ⟨hfull, heq⟩
    · obtain ⟨hn, he⟩ := Prod.mk.inj heq
      rw [hn, he]
      exact ⟨Nat.le_refl _, hfits, h.spent⟩
    · obtain ⟨hn, he⟩ := Prod.mk.inj heq
      rw [hn, he]
      refine ⟨by omega, hroom, ?_⟩
      intro hexhausted
      have hout := h.spent hexhausted
      omega
    · obtain ⟨hn, -⟩ := Prod.mk.inj heq
      rw [hn]
      exact ⟨Nat.le_refl _, hfits, fun _ => hfull⟩
  refine ⟨h.increasing, ?_, hnext.2.1, hcurrent, hnext.2.2⟩
  intro id hid
  exact Nat.le_trans (h.counted id hid) hnext.1

theorem Supplied.of_opened (h : Supplied r ids) (hroom : r.nextCandidate + 1 < 2 ^ 64)
    (hsupply : r'.supply = (r.nextCandidate + 1, r.exhausted))
    (hwait : r'.wait.map (·.candidate) = some (r.nextCandidate + 1)) :
    Supplied r' (ids ++ [r.nextCandidate + 1]) := by
  obtain ⟨hn, he⟩ := Prod.mk.inj hsupply
  refine ⟨?_, ?_, by rw [hn]; exact hroom, ?_, ?_⟩
  · rw [List.pairwise_append]
    refine ⟨h.increasing, List.pairwise_singleton _ _, ?_⟩
    intro id hid id' hid'
    rw [List.mem_singleton.mp hid']
    exact Nat.lt_succ_of_le (h.counted id hid)
  · intro id hid
    rw [hn]
    rcases List.mem_append.mp hid with hold | hnew
    · exact Nat.le_succ_of_le (h.counted id hold)
    · rw [List.mem_singleton.mp hnew]
  · intro wait hw
    rw [hw] at hwait
    have hc : wait.candidate = r.nextCandidate + 1 := Option.some.inj hwait
    rw [List.getLast?_concat, hc]
  · intro hexhausted
    have hout := h.spent (he ▸ hexhausted)
    omega

theorem supplied_apply {E : Evidence} (hcore : Core E r) (h : Supplied r ids)
    (a : Input) : Supplied (r.apply a).1 (ids ++ (openedBy r a).toList) := by
  have hsupply := apply_supply r a
  have hclosed : ∀ {o : Option CandidateId}, o = none → ids ++ o.toList = ids := by
    intro o ho
    rw [ho]
    exact List.append_nil ids
  have hkept : ((r.apply a).1.supply = r.supply
      ∨ (r.nextCandidate + 1 < 2 ^ 64 ∧ (r.apply a).1.supply = (r.nextCandidate + 1, r.exhausted))
      ∨ (2 ^ 64 ≤ r.nextCandidate + 1 ∧ (r.apply a).1.supply = (r.nextCandidate, true))) := by
    rcases hsupply with heq | heq | ⟨hfull, heq, -⟩
    · exact .inl heq
    · exact .inr (.inl heq)
    · exact .inr (.inr ⟨hfull, heq⟩)
  cases apply_wait hcore a with
  | kept hwait hnext =>
    have hnone : openedBy r a = none := by
      unfold openedBy
      split
      · rename_i hclosed
        rw [hwait, Option.isNone_iff_eq_none.mp hclosed]
        rfl
      · rfl
    rw [hclosed hnone]
    refine h.of_kept hkept ?_
    intro wait hw
    exact h.current wait (hwait ▸ hw)
  | opened ha hnone hwait hnext =>
    have hopened : openedBy r a = some (r.nextCandidate + 1) := by
      unfold openedBy
      rw [hnone, hwait]
      rfl
    rw [hopened]
    rcases hsupply with heq | ⟨hroom, heq⟩ | ⟨hfull, heq, hsame⟩
    · have hn := (Prod.mk.inj heq).1
      omega
    · exact h.of_opened hroom heq (by rw [hwait]; rfl)
    · have hn := (Prod.mk.inj heq).1
      omega
  | shown hopen ha hwait hnext =>
    rename_i wait
    have hnone : openedBy r a = none := by
      unfold openedBy
      rw [hopen]
      rfl
    rw [hclosed hnone]
    refine h.of_kept hkept ?_
    intro w hw
    rw [hwait] at hw
    rw [← Option.some.inj hw]
    exact h.current wait hopen
  | released hopen hby hwait hnext =>
    have hnone : openedBy r a = none := by
      unfold openedBy
      rw [hopen]
      rfl
    rw [hclosed hnone]
    refine h.of_kept hkept ?_
    intro w hw
    rw [hwait] at hw
    cases hw

theorem supplied_after (fence : Fence) (inputs : List Input) :
    Supplied (after fence inputs) (openings fence inputs) := by
  induction inputs with
  | nil =>
    refine ⟨List.Pairwise.nil, ?_, Nat.two_pow_pos 64, ?_, ?_⟩
    · intro id hid
      cases hid
    · intro wait hw
      cases hw
    · intro hexhausted
      cases hexhausted
  | cons a inputs ih =>
    exact supplied_apply (reachable_inv (run_after fence inputs)).core ih a

/-- No id is left for a wait once the supply has run out, whatever is called afterwards. -/
theorem exhausted_run {fence : Fence} {inputs : List Input}
    (h : (after fence inputs).exhausted = true) (later : List Input) :
    (after fence (later ++ inputs)).exhausted = true ∧
      openings fence (later ++ inputs) = openings fence inputs := by
  induction later with
  | nil => exact ⟨h, rfl⟩
  | cons a later ih =>
    obtain ⟨hexhausted, hsame⟩ := ih
    have hsupplied := supplied_after fence (later ++ inputs)
    have hout := hsupplied.spent hexhausted
    have hkept : ((after fence (later ++ inputs)).apply a).1.exhausted = true := by
      rcases apply_supply (after fence (later ++ inputs)) a with heq | ⟨-, heq⟩ | ⟨-, heq, -⟩
      · exact (Prod.mk.inj heq).2.trans hexhausted
      · exact (Prod.mk.inj heq).2.trans hexhausted
      · exact (Prod.mk.inj heq).2
    have hnone : openedBy (after fence (later ++ inputs)) a = none := by
      cases hopen : openedBy (after fence (later ++ inputs)) a with
      | none => rfl
      | some id =>
        -- An opened wait would have taken the id after the last one.
        have hnext := supplied_apply (reachable_inv (run_after fence (later ++ inputs))).core
          hsupplied a
        rw [hopen] at hnext
        have hlt := hnext.fits
        rcases apply_wait (reachable_inv (run_after fence (later ++ inputs))).core a with
          ⟨hwait, -⟩ | ⟨-, -, -, hcount⟩ | ⟨hwait, -, -, -⟩ | ⟨hwait, -, -, -⟩
        · unfold openedBy at hopen
          split at hopen
          · rename_i hclosed
            rw [hwait, Option.isNone_iff_eq_none.mp hclosed] at hopen
            cases hopen
          · cases hopen
        · omega
        · simp [openedBy, hwait] at hopen
        · simp [openedBy, hwait] at hopen
    refine ⟨hkept, ?_⟩
    show openings fence (later ++ inputs) ++ (openedBy (after fence (later ++ inputs)) a).toList = _
    rw [hnone, hsame]
    exact List.append_nil _

/-! ## The effect a reducer accepts -/

/-- A call that returns an effect has just issued it; one that returns none issued none. -/
def Issued (r : ApprovalReducer) (p : ApprovalReducer × List Effect) : Prop :=
  (p.2 = [] ∧ (p.1.issued = none ∨ p.1.issued = r.issued)) ∨
    ∃ effect, p.2 = [effect] ∧ p.1.issued = some effect

section issued
variable {r q : ApprovalReducer}

theorem issued_displayDue (h : q.issued = none ∨ q.issued = r.issued) (now : Instant) :
    Issued r (q.displayDue now) := by
  rcases displayDue_cases q now with heq | ⟨c, f, heq⟩
  · rw [heq]
    exact .inl ⟨rfl, h⟩
  · rw [heq]
    exact .inr ⟨_, rfl, rfl⟩

theorem issued_observed (h : q.issued = none) (previous : Option NativeStatus)
    (status : NativeStatus) (startedAt now : Instant) :
    Issued r (q.observed previous status startedAt now) := by
  cases status with
  | approvalPending => exact issued_displayDue (.inl (by simp [h])) now
  | active =>
    have hactive : (q.observeActive previous).1.issued = none := by simp [h]
    simp only [observed]
    split
    · exact .inr ⟨_, rfl, rfl⟩
    · rename_i heq
      rw [heq] at hactive
      exact issued_displayDue (.inl hactive) now
  | userInputPending => exact issued_displayDue (q := q.lock) (.inl h) now
  | unavailable => exact issued_displayDue (.inl (by simp [h])) now

theorem apply_issued (r : ApprovalReducer) (a : Input) : Issued r (r.apply a) := by
  cases a with
  | hook event toolId now =>
    cases event with
    | stop => exact .inl ⟨rfl, .inl rfl⟩
    | userPromptSubmit => exact .inl ⟨rfl, .inl rfl⟩
    | preToolUse => exact issued_displayDue (q := (hookStart r now).pre toolId) (.inl (by simp)) now
    | permissionRequest =>
      exact issued_displayDue (q := (hookStart r now).permission toolId now) (.inl (by simp)) now
    | postToolUse =>
      have hpost : ((postStart r now).post toolId).1.issued = none := by simp [postStart]
      show Issued r (r.hook .postToolUse toolId now)
      rw [hook_postToolUse]
      split
      · exact .inr ⟨_, rfl, rfl⟩
      · rename_i heq
        rw [heq] at hpost
        exact issued_displayDue (.inl hpost) now
  | observe status complete startedAt now =>
    show Issued r (r.observe status complete startedAt now)
    rcases observe_cases r status complete startedAt now with heq |
      ⟨-, ⟨effect, -, -, heq⟩ | heq | ⟨-, heq⟩⟩
    · rw [heq]
      exact issued_displayDue (.inl (by simp [refused])) now
    · rw [heq]
      exact .inr ⟨_, rfl, rfl⟩
    · rw [heq]
      exact issued_observed rfl ..
    · rw [heq]
      exact issued_observed rfl ..
  | tick now =>
    have hclock : (tickClock r now).issued = none ∨ (tickClock r now).issued = r.issued := by
      unfold tickClock
      split
      · exact .inr (by simp)
      · exact .inl rfl
    have hstart : (tickStart r now).issued = none ∨ (tickStart r now).issued = r.issued := by
      unfold tickStart
      split
      · split
        · exact hclock
        · exact .inl rfl
      · exact hclock
    show Issued r (r.tick now)
    rw [tick_eq]
    split
    · exact .inr ⟨_, rfl, rfl⟩
    · exact issued_displayDue hstart now
  | invalidate f => exact .inl ⟨rfl, .inl rfl⟩
  | disconnected => exact .inl ⟨rfl, .inl (by simp [ApprovalReducer.apply, disconnected])⟩
  | acknowledgeShow effect =>
    refine .inl ⟨rfl, .inr ?_⟩
    show (r.acknowledgeShow effect).1.issued = r.issued
    unfold acknowledgeShow
    repeat' split
    all_goals rfl
  | acknowledgeClear effect =>
    refine .inl ⟨rfl, ?_⟩
    show (r.acknowledgeClear effect).1.issued = none ∨ (r.acknowledgeClear effect).1.issued = _
    unfold acknowledgeClear
    split
    · exact .inr rfl
    · exact .inl rfl

end issued

theorem issued_last (fence : Fence) (inputs : List Input) {effect : Effect}
    (h : (after fence inputs).issued = some effect) : lastIssued fence inputs = some effect := by
  induction inputs with
  | nil => cases h
  | cons a inputs ih =>
    show ((after fence inputs).apply a).2.getLast?.or (lastIssued fence inputs) = _
    have hnow : ((after fence inputs).apply a).1.issued = some effect := h
    rcases apply_issued (after fence inputs) a with ⟨hnil, hnone | hsame⟩ | ⟨e, heff, hissued⟩
    · rw [hnone] at hnow
      cases hnow
    · rw [hnil]
      exact ih (hsame ▸ hnow)
    · rw [heff]
      exact hissued.symm.trans hnow

/-! ## Main result -/

/-- Candidate identity, over every run of the reducer (`inputs`, newest first): the waits
it opened took strictly increasing 64-bit ids, the open one the last of them, and none is
opened once the ids have run out; the table is bounded and its tool ids distinct; a tool
id opens one wait between two resets; and the only effect accepted is the last one issued,
which is the pending clear of an unlocked reducer if it is a clear. -/
theorem candidate_identity_unique (fence : Fence) (inputs : List Input) :
    (openings fence inputs).Pairwise (· < ·) ∧
    (∀ id ∈ openings fence inputs, id < 2 ^ 64) ∧
    (∀ wait, (after fence inputs).wait = some wait →
      (openings fence inputs).getLast? = some wait.candidate) ∧
    ((after fence inputs).exhausted = true →
      ∀ later, openings fence (later ++ inputs) = openings fence inputs) ∧
    (after fence inputs).records.length ≤ maxRecords ∧
    ((after fence inputs).records.filterMap (·.toolId)).Nodup ∧
    (∀ a id, Opens (after fence inputs) a id → ∀ later b, (∀ x ∈ later, ¬ x.isReset) →
      ¬ Opens (after fence (later ++ a :: inputs)) b id) ∧
    (∀ effect, (after fence inputs).accepts effect = true →
      lastIssued fence inputs = some effect ∧
      ∀ c f, effect = .clearWait c f →
        (after fence inputs).pendingClear = some effect ∧ (after fence inputs).locked = false) := by
  have hsupplied := supplied_after fence inputs
  have htable := table_after fence inputs
  refine ⟨hsupplied.increasing, ?_, hsupplied.current, ?_, ?_, ?_, ?_, ?_⟩
  · intro id hid
    exact Nat.lt_of_le_of_lt (hsupplied.counted id hid) hsupplied.fits
  · intro hexhausted later
    exact (exhausted_run hexhausted later).2
  · have hbound := htable.bounded
    rw [toolIds, keys, List.length_map, List.length_map] at hbound
    exact hbound
  · have hdistinct := htable.distinct
    rw [toolIds, keys, List.map_map, List.filterMap_map] at hdistinct
    exact hdistinct
  · intro a id hopens later b hno
    have hspent : Spent (after fence (a :: inputs)) id := spent_of_opens hopens
    exact not_opens_of_spent (spent_run hspent hno) b
  · intro effect haccepts
    have hissued : (after fence inputs).issued = some effect := by
      simpa [accepts] using haccepts
    refine ⟨issued_last fence inputs hissued, ?_⟩
    intro c f heq
    subst heq
    have hinv := reachable_inv (run_after fence inputs)
    have hpending := (hinv.issued c f hissued).1
    exact ⟨hpending, (hinv.core.pendingClear _ hpending).1⟩

end Orkworksd.CodexApproval
