import Orkworksd.Metadata.SessionTransactions

/- Conditional attention writes lose no update.

   1. `run_effect` says once what an operation other than a deletion can do to the store:
      nothing, a replacement at the next revision, or such a replacement followed by an
      accepted write.
   2. A token is `Live` in a store whose owner still has its revision, and `Spent` once
      the owner moved past it or is gone. `step_spent` and `step_live` are the step
      lemmas: an accepted write or a deletion spends a token, nothing revives it, and
      every other operation keeps it.
   3. `run_spends` carries them along a run, and `tokens_lose_no_update` is the contract
      of the lane. -/
namespace Orkworksd.Metadata
open Orkworksd.Lib TextMap

variable {answer : Answer} {id : String} {owner : AttentionOwner}

/-- The revision a session's file holds, zero where there is no record. -/
def Store.storedRevision (id : String) (s : Store) : Nat :=
  match s.files[id]? with
  | some (.record r) => r.revision
  | _ => 0

section Reads

variable {io : Io} {id : String} {s : Store}

theorem nextRevision_ok {revision next : Nat} (h : nextRevision revision = .ok next) :
    next = revision + 1 := by
  unfold nextRevision at h
  split at h
  · cases h
    rfl
  · cases h

variable {record : RevisionedSession}

theorem read_some (h : s.tryReadRevisionedSession io id = .ok (some record)) :
    ∃ raw, s.files[id]? = some (.record raw) ∧ record = raw.read io := by
  unfold Store.tryReadRevisionedSession at h
  split at h
  · cases h
  · split at h
    · cases h
    · cases h
    · next raw file =>
      split at h
      · cases h
      · cases h
        exact ⟨raw, file, rfl⟩

theorem read_none (h : s.tryReadRevisionedSession io id = .ok none) : s.files[id]? = none := by
  unfold Store.tryReadRevisionedSession at h
  split at h
  · cases h
  · split at h
    · assumption
    · cases h
    · split at h <;> cases h

theorem read_revision {current : Option RevisionedSession}
    (h : s.tryReadRevisionedSession io id = .ok current) :
    (current.map (·.revision)).getD 0 = s.storedRevision id := by
  cases current with
  | none => simp [Store.storedRevision, read_none h]
  | some record =>
    obtain ⟨raw, file, rfl⟩ := read_some h
    simp [Store.storedRevision, file, RevisionedSession.read]

theorem latest_ok (h : s.latest io id = .ok record) :
    s.tryReadRevisionedSession io id = .ok (some record) := by
  unfold Store.latest at h
  split at h
  · cases h
  · cases h
  · next read =>
    cases h
    exact read

theorem latest_revision (h : s.latest io id = .ok record) :
    record.revision = s.storedRevision id := read_revision (latest_ok h)

end Reads

/-- What an operation of the session other than a deletion can do. -/
inductive Effect (s : Store) (id : String) : Store → Answer → Prop where
  | failed (e : SessionError) : Effect s id s (.failed e)
  | declined : Effect s id s .declined
  | snapshot : Effect s id s (.snapshot (s.owners[id]?.bind (·.snapshot id)))
  | replaced (r : RevisionedSession) (next : r.revision = s.storedRevision id + 1) :
      Effect s id (s.replace id r) (.committed false none)
  | accepted (r : RevisionedSession) (next : r.revision = s.storedRevision id + 1) :
      Effect s id ((s.replace id r).acceptSessionWrite id).1
        (.committed true ((s.replace id r).acceptSessionWrite id).2)

section Effects

variable (io : Io) (id : String) (s : Store)

variable (metadata : SessionMetadata)

theorem commit_effect (scope : WriteScope) {next : Nat}
    (beforeReplace : SessionMetadata → Except SessionError Unit)
    (raised : next = s.storedRevision id + 1) :
    Effect s id (s.commitSessionRecord io id metadata scope next beforeReplace).1
      (s.commitSessionRecord io id metadata scope next beforeReplace).2 := by
  unfold Store.commitSessionRecord
  split
  · exact .failed _
  · dsimp only
    split
    · exact .failed _
    · split
      · exact .failed _
      · split
        · exact .failed _
        · split
          · exact .accepted _ raised
          · exact .replaced _ raised

theorem write_effect : Effect s metadata.id (s.tryWriteSessionOwned io metadata).1
      (s.tryWriteSessionOwned io metadata).2 := by
  unfold Store.tryWriteSessionOwned
  split
  · exact .failed _
  · split
    · exact .failed _
    · next current read =>
      dsimp only
      split
      · exact .failed _
      · next next exhausted =>
        have raised := nextRevision_ok exhausted
        rw [read_revision read] at raised
        split
        · exact .failed _
        · exact .accepted _ raised

theorem update_effect (expectedRevision : Option Nat) (scope : WriteScope) (mutate : Mutate Unit) :
    Effect s id (s.updateSessionLocked io id expectedRevision scope mutate).1
      (s.updateSessionLocked io id expectedRevision scope mutate).2 := by
  unfold Store.updateSessionLocked
  split
  · exact .failed _
  · next record read =>
    split
    · exact .failed _
    · split
      · exact .failed _
      · next next exhausted =>
        have raised := nextRevision_ok exhausted
        rw [latest_revision read] at raised
        split
        · exact .failed _
        · exact commit_effect io id s _ _ _ raised

theorem decide_effect (mutate : Mutate (Option WriteScope))
    (beforeReplace : SessionMetadata → Except SessionError Unit) :
    Effect s id (s.mutateSessionDecided io id mutate beforeReplace).1
      (s.mutateSessionDecided io id mutate beforeReplace).2 := by
  unfold Store.mutateSessionDecided
  split
  · exact .failed _
  · next record read =>
    split
    · exact .failed _
    · exact .declined
    · split
      · exact .failed _
      · next next exhausted =>
        have raised := nextRevision_ok exhausted
        rw [latest_revision read] at raised
        exact commit_effect io id s _ _ _ raised

theorem read_effect :
    Effect s id (s.readOwnedAttention io id).1 (s.readOwnedAttention io id).2 := by
  unfold Store.readOwnedAttention
  split
  · exact .failed _
  · exact .declined
  · exact .snapshot

theorem mutateOwned_effect (expected : Option SessionWriteToken) (mutate : Mutate Bool) :
    Effect s id (s.mutateOwnedAttention io id expected mutate).1
      (s.mutateOwnedAttention io id expected mutate).2 := by
  unfold Store.mutateOwnedAttention
  split
  · exact .declined
  · split
    · exact .failed _
    · next record read =>
      split
      · exact .failed _
      · exact .declined
      · split
        · exact .failed _
        · split
          · exact .failed _
          · next next exhausted =>
            have raised := nextRevision_ok exhausted
            rw [latest_revision read] at raised
            split
            · exact .failed _
            · exact .accepted _ raised

theorem writeIfOwned_effect (token : SessionWriteToken) (ready : Bool) :
    Effect s metadata.id (s.tryWriteSessionIfOwnedWhen io metadata token ready).1
      (s.tryWriteSessionIfOwnedWhen io metadata token ready).2 := by
  unfold Store.tryWriteSessionIfOwnedWhen
  split
  · exact .declined
  · split
    · exact .failed _
    · exact .declined
    · next record read =>
      split
      · exact .declined
      · split
        · exact .failed _
        · next next exhausted =>
          have raised := nextRevision_ok exhausted
          rw [show record.revision = s.storedRevision metadata.id from read_revision read] at raised
          split
          · exact .failed _
          · split
            · dsimp only
              split
              · exact .failed _
              · exact .declined
            · split
              · exact .failed _
              · exact .accepted _ raised

theorem run_effect {op : Op} (write : op.isDelete = false) :
    Effect s op.session (op.run io s).1 (op.run io s).2 := by
  cases op with
  | write metadata => exact write_effect io s metadata
  | update id expectedRevision scope mutate =>
    exact update_effect io id s expectedRevision scope mutate
  | decide id mutate beforeReplace => exact decide_effect io id s mutate beforeReplace
  | read id => exact read_effect io id s
  | mutateOwned id expected mutate => exact mutateOwned_effect io id s expected mutate
  | writeIfOwned metadata token ready => exact writeIfOwned_effect io s metadata token ready
  | delete id => cases write

end Effects

/-! Tokens. -/

/-- The owner still has the revision it had when the token was issued. -/
def Live (token : SessionWriteToken) (s : Store) : Prop :=
  ∃ owner, s.owners[token.session]? = some owner ∧ owner.identity = token.identity
    ∧ owner.revision = some token.revision

/-- The owner moved past the token, or another owner took its place, or none is left. -/
def Spent (token : SessionWriteToken) (s : Store) : Prop :=
  ∀ owner, s.owners[token.session]? = some owner → owner.identity = token.identity →
    ∀ revision, owner.revision = some revision → token.revision < revision

/-- Every owner was made by this store. -/
def Sound (s : Store) : Prop :=
  ∀ (id : String) (owner : AttentionOwner), s.owners[id]? = some owner →
    owner.identity < s.identities

variable {s : Store}

theorem live_not_spent {token : SessionWriteToken} (live : Live token s)
    (spent : Spent token s) : False := by
  obtain ⟨owner, owned, identity, revision⟩ := live
  exact Nat.lt_irrefl _ (spent owner owned identity _ revision)

theorem owned_iff {token : SessionWriteToken} :
    s.owned id token = true ↔ token.session = id ∧ Live token s := by
  unfold Store.owned Live
  rw [Bool.and_eq_true, beq_iff_eq, Option.any_eq_true]
  constructor
  · rintro ⟨rfl, owner, owned, owns⟩
    rw [AttentionOwner.owns, Bool.and_eq_true, beq_iff_eq, beq_iff_eq] at owns
    exact ⟨rfl, owner, owned, owns⟩
  · rintro ⟨rfl, owner, owned, identity, revision⟩
    exact ⟨rfl, owner, owned, by simp [AttentionOwner.owns, identity, revision]⟩

theorem advance_lt {revision : Nat}
    (h : owner.advance.revision = some revision) : ∃ r, owner.revision = some r ∧ revision = r + 1 := by
  unfold AttentionOwner.advance at h
  obtain ⟨r, old, bounded⟩ := Option.bind_eq_some_iff.mp h
  split at bounded
  · cases bounded
    exact ⟨r, old, rfl⟩
  · cases bounded

theorem accept_owner (id : String) (s : Store) :
    ∃ owner, (s.acceptSessionWrite id).1.owners = s.owners.insert id owner
      ∧ (s.acceptSessionWrite id).2 = owner.snapshot id
      ∧ s.identities ≤ (s.acceptSessionWrite id).1.identities
      ∧ ((∃ old, s.owners[id]? = some old ∧ owner = old.advance)
        ∨ (s.owners[id]? = none ∧ owner.identity = s.identities
          ∧ (s.acceptSessionWrite id).1.identities = s.identities + 1)) := by
  unfold Store.acceptSessionWrite
  split
  · next old owned => exact ⟨_, rfl, rfl, Nat.le_refl _, .inl ⟨old, owned, rfl⟩⟩
  · next absent => exact ⟨_, rfl, rfl, Nat.le_succ _, .inr ⟨absent, rfl, rfl⟩⟩

section Accept

variable {token : SessionWriteToken} {id : String} {s : Store}

theorem accept_spends (known : token.identity < s.identities) (session : id = token.session)
    (h : Live token s ∨ Spent token s) : Spent token (s.acceptSessionWrite id).1 := by
  obtain ⟨owner, owners, -, -, made⟩ := accept_owner id s
  subst session
  intro owner' owned identity revision current
  rw [owners, get_insert_self, Option.some.injEq] at owned
  subst owned
  rcases made with ⟨old, present, rfl⟩ | ⟨-, fresh, -⟩
  · obtain ⟨r, before, rfl⟩ := advance_lt current
    rcases h with ⟨live, found, -, revision⟩ | spent
    · rw [present, Option.some.injEq] at found
      subst found
      rw [before, Option.some.injEq] at revision
      omega
    · have := spent old present identity r before
      omega
  · omega

theorem accept_other (other : id ≠ token.session) :
    (s.acceptSessionWrite id).1.owners[token.session]? = s.owners[token.session]? := by
  obtain ⟨owner, owners, -⟩ := accept_owner id s
  rw [owners, get_insert_ne other]

theorem delete_owner (io : Io) : ∀ owner, (s.deleteSession io id).1.owners[id]? = some owner →
    ∃ old, s.owners[id]? = some old ∧ owner = old.advance := by
  intro owner owned
  have revoked : (s.owners.modify id AttentionOwner.advance)[id]? = some owner →
      ∃ old, s.owners[id]? = some old ∧ owner = old.advance := by
    rw [get_modify, if_pos rfl, Option.map_eq_some_iff]
    rintro ⟨old, present, rfl⟩
    exact ⟨old, present, rfl⟩
  unfold Store.deleteSession at owned
  dsimp only at owned
  split at owned
  · exact revoked owned
  · split at owned
    · exact revoked owned
    · rw [get_erase_self] at owned
      cases owned

theorem delete_spends (io : Io) (session : id = token.session) (h : Live token s ∨ Spent token s) :
    Spent token (s.deleteSession io id).1 := by
  subst session
  intro owner owned identity revision current
  obtain ⟨old, present, rfl⟩ := delete_owner io owner owned
  obtain ⟨r, before, rfl⟩ := advance_lt current
  rcases h with ⟨live, found, -, revision⟩ | spent
  · rw [present, Option.some.injEq] at found
    subst found
    rw [before, Option.some.injEq] at revision
    omega
  · have := spent old present identity r before
    omega

theorem delete_other (io : Io) (other : id ≠ token.session) :
    (s.deleteSession io id).1.owners[token.session]? = s.owners[token.session]? := by
  unfold Store.deleteSession
  dsimp only
  split
  · rw [get_modify, if_neg other]
  · split
    · rw [get_modify, if_neg other]
    · rw [get_erase_ne other, get_modify, if_neg other]

theorem delete_identities (io : Io) : (s.deleteSession io id).1.identities = s.identities := by
  unfold Store.deleteSession
  dsimp only
  split
  · rfl
  · split <;> rfl

end Accept

/-- An accepted write of the token's session, or its deletion. -/
def Revokes (token : SessionWriteToken) (turn : Turn) : Prop :=
  turn.op.session = token.session
    ∧ (turn.op.isDelete = true ∨ ∃ issued, turn.answer = .committed true issued)

section Steps

variable {token : SessionWriteToken} {s t : Store} {turn : Turn}

theorem live_congr (same : t.owners[token.session]? = s.owners[token.session]?)
    (live : Live token s) : Live token t := by
  obtain ⟨owner, owned, rest⟩ := live
  exact ⟨owner, same.trans owned, rest⟩

theorem spent_congr (same : t.owners[token.session]? = s.owners[token.session]?)
    (spent : Spent token s) : Spent token t :=
  fun owner owned => spent owner (same.symm.trans owned)

theorem step_cases {io : Io} {op : Op} (step : Step s ⟨io, op, answer⟩ t) :
    (∃ id, op = .delete id ∧ (s.deleteSession io id).1 = t ∧ (s.deleteSession io id).2 = answer) ∨
      op.isDelete = false ∧ Effect s op.session t answer := by
  have after : (op.run io s).1 = t := congrArg Prod.fst step
  have answered : (op.run io s).2 = answer := congrArg Prod.snd step
  by_cases deletion : op.isDelete = true
  · cases op with
    | delete id => exact .inl ⟨id, rfl, after, answered⟩
    | _ => cases deletion
  · have effect := run_effect io s (Bool.eq_false_iff.mpr deletion)
    rw [after, answered] at effect
    exact .inr ⟨Bool.eq_false_iff.mpr deletion, effect⟩

theorem step_keeps (step : Step s turn t) (keeps : ¬ Revokes token turn) :
    t.owners[token.session]? = s.owners[token.session]? := by
  obtain ⟨io, op, answer⟩ := turn
  rcases step_cases step with ⟨id, rfl, rfl, -⟩ | ⟨-, effect⟩
  · exact delete_other io (fun session => keeps ⟨session, .inl rfl⟩)
  · cases effect with
    | failed => rfl
    | declined => rfl
    | snapshot => rfl
    | replaced => rfl
    | accepted r =>
      have other : op.session ≠ token.session := fun session => keeps ⟨session, .inr ⟨_, rfl⟩⟩
      exact accept_other other

theorem step_revokes (step : Step s turn t) (known : token.identity < s.identities)
    (revokes : Revokes token turn) (h : Live token s ∨ Spent token s) : Spent token t := by
  obtain ⟨io, op, answer⟩ := turn
  obtain ⟨session, revokes⟩ := revokes
  rcases step_cases step with ⟨id, rfl, rfl, -⟩ | ⟨write, effect⟩
  · exact delete_spends io session h
  · obtain ⟨issued, rfl⟩ := revokes.resolve_left (by simp [write])
    cases effect with
    | accepted r => exact accept_spends known session h

theorem step_spent (step : Step s turn t) (known : token.identity < s.identities)
    (spent : Spent token s) : Spent token t := by
  by_cases revokes : Revokes token turn
  · exact step_revokes step known revokes (.inr spent)
  · exact spent_congr (step_keeps step revokes) spent

theorem step_identities (step : Step s turn t) : s.identities ≤ t.identities := by
  obtain ⟨io, op, answer⟩ := turn
  rcases step_cases step with ⟨id, rfl, rfl, -⟩ | ⟨-, effect⟩
  · exact Nat.le_of_eq (delete_identities io).symm
  · cases effect with
    | accepted r =>
      obtain ⟨owner, -, -, grown, -⟩ := accept_owner op.session (s.replace op.session r)
      exact grown
    | _ => exact Nat.le_refl _

theorem step_sound (step : Step s turn t) (sound : Sound s) : Sound t := by
  intro id owner owned
  obtain ⟨io, op, answer⟩ := turn
  rcases step_cases step with ⟨session, rfl, rfl, -⟩ | ⟨-, effect⟩
  · rw [delete_identities]
    by_cases same : session = id
    · subst same
      obtain ⟨old, present, rfl⟩ := delete_owner io owner owned
      exact sound session old present
    · have kept := @delete_other ⟨id, 0, 0⟩ session s io same
      exact sound id owner (kept.symm.trans owned)
  · cases effect with
    | accepted r =>
      obtain ⟨new, owners, -, grown, made⟩ := accept_owner op.session (s.replace op.session r)
      rw [owners, get_insert] at owned
      split at owned
      · cases owned
        rcases made with ⟨old, present, rfl⟩ | ⟨-, fresh, one⟩
        · exact Nat.lt_of_lt_of_le (sound op.session old present) grown
        · omega
      · exact Nat.lt_of_lt_of_le (sound id owner owned) grown
    | _ => exact sound id owner owned

/-- A turn that hands out a token leaves it live. -/
def Issues (token : SessionWriteToken) (turn : Turn) : Prop :=
  turn.op.session = token.session
    ∧ ((∃ attention, turn.answer = .committed attention (some token))
      ∨ turn.answer = .snapshot (some token))

theorem snapshot_some
    (h : owner.snapshot id = some token) : token.session = id ∧ owner.identity = token.identity
      ∧ owner.revision = some token.revision := by
  unfold AttentionOwner.snapshot at h
  obtain ⟨revision, current, rfl⟩ := Option.map_eq_some_iff.mp h
  exact ⟨rfl, rfl, current⟩

theorem issued_live (step : Step s turn t) (issues : Issues token turn) : Live token t := by
  obtain ⟨io, op, answer⟩ := turn
  obtain ⟨session, issued⟩ := issues
  rcases step_cases step with ⟨id, rfl, -, rfl⟩ | ⟨-, effect⟩
  · simp only [Store.deleteSession] at issued
    split at issued
    · rcases issued with ⟨_, h⟩ | h <;> cases h
    · split at issued <;> rcases issued with ⟨_, h⟩ | h <;> cases h
  cases effect with
  | accepted r =>
    obtain ⟨owner, owners, handed, -⟩ := accept_owner op.session (s.replace op.session r)
    rcases issued with ⟨_, h⟩ | h
    · obtain ⟨-, identity, revision⟩ := snapshot_some (handed.symm.trans (Answer.committed.inj h).2)
      exact ⟨owner, by rw [owners, ← session, get_insert_self], identity, revision⟩
    · cases h
  | snapshot =>
    rcases issued with ⟨_, h⟩ | h
    · cases h
    · obtain ⟨owner, owned, handed⟩ := Option.bind_eq_some_iff.mp (Answer.snapshot.inj h)
      obtain ⟨-, identity, revision⟩ := snapshot_some handed
      exact ⟨owner, session ▸ owned, identity, revision⟩
  | replaced r =>
    rcases issued with ⟨_, h⟩ | h <;> cases h
  | _ => rcases issued with ⟨_, h⟩ | h <;> cases h

end Steps

variable {t : Store}

theorem run_spends {token : SessionWriteToken} {turns : List Turn} (run : Run Step s turns t)
    (known : token.identity < s.identities) (live : Live token s) :
    token.identity < t.identities
      ∧ (Spent token t ∨ (Live token t ∧ ∀ turn ∈ turns, ¬ Revokes token turn)) := by
  induction run with
  | start => exact ⟨known, .inr ⟨live, by simp⟩⟩
  | next _ step ih =>
    obtain ⟨known, spent | ⟨live, kept⟩⟩ := ih
    · exact ⟨Nat.lt_of_lt_of_le known (step_identities step), .inl (step_spent step known spent)⟩
    · refine ⟨Nat.lt_of_lt_of_le known (step_identities step), ?_⟩
      rename_i turn _
      by_cases revokes : Revokes token turn
      · exact .inl (step_revokes step known revokes (.inl live))
      · refine .inr ⟨live_congr (step_keeps step revokes) live, ?_⟩
        intro turn member
        rcases List.mem_cons.mp member with rfl | member
        · exact revokes
        · exact kept turn member

/-! What a conditional write keeps. -/

/-- The record without its attention and without the activity time that an attention
write sets. -/
def SessionMetadata.beyondAttention (m : SessionMetadata) : SessionMetadata :=
  { m with
    observedStatus := none
    attention := none
    needsUserInput := none
    detectedQuestion := none
    suggestedOptions := none
    lastActivity := ""
    provenance := { m.provenance with
      attentionSource := none
      attentionConfidence := none
      attentionOrigin := none
      attentionUpdatedAt := none } }

/-- A conditional write through a closure that only writes attention; the write of a
snapshot's attention always is one. -/
def Op.AttentionOnly : Op → Prop
  | .mutateOwned _ _ mutate => ∀ m m' changed, mutate m = .ok (m', changed) →
      m'.beyondAttention = m.beyondAttention
  | _ => True

theorem accept_files (id : String) (s : Store) : (s.acceptSessionWrite id).1.files = s.files := by
  unfold Store.acceptSessionWrite
  split <;> rfl

theorem stampAttention_beyond (now : String) (m : SessionMetadata) :
    (Store.stampAttention now m).beyondAttention = m.beyondAttention := rfl

theorem withAttention_beyond (metadata record : SessionMetadata) (now : String) :
    (Store.withAttention metadata record now).beyondAttention = record.beyondAttention := rfl

variable {issued : Option SessionWriteToken} {attention : Bool}

theorem conditional_commit {io : Io} {op : Op} {token : SessionWriteToken}
    (step : Step s ⟨io, op, .committed attention issued⟩ t) (condition : op.condition = some token) :
    Live token s ∧ (op.AttentionOnly → ∃ raw stored,
      s.files[token.session]? = some (.record raw) ∧ t.files[token.session]? = some (.record stored)
        ∧ stored.metadata.beyondAttention = (raw.read io).metadata.beyondAttention) := by
  rw [Step] at step
  cases op with
  | mutateOwned id expected mutate =>
    cases condition
    simp only [Op.run, Store.mutateOwnedAttention, Option.any_some] at step
    split at step
    · cases step
    · next owned =>
      rw [Bool.not_eq_true, Bool.not_eq_false', owned_iff] at owned
      obtain ⟨rfl, live⟩ := owned
      refine ⟨live, fun only => ?_⟩
      split at step
      · cases step
      · next record read =>
        obtain ⟨raw, file, rfl⟩ := read_some (latest_ok read)
        split at step
        · cases step
        · cases step
        · next metadata mutated =>
          split at step
          · cases step
          · split at step
            · cases step
            · split at step
              · cases step
              · have after := congrArg Prod.fst step
                dsimp only at after
                rw [← after, accept_files]
                refine ⟨raw, _, file, get_insert_self, ?_⟩
                rw [stampAttention_beyond, only _ _ _ mutated]
  | writeIfOwned metadata presented ready =>
    cases condition
    simp only [Op.run, Store.tryWriteSessionIfOwnedWhen] at step
    split at step
    · cases step
    · next owned =>
      rw [Bool.not_eq_true, Bool.not_eq_false', owned_iff] at owned
      obtain ⟨session, live⟩ := owned
      refine ⟨live, fun _ => ?_⟩
      rw [session]
      split at step
      · cases step
      · cases step
      · next record read =>
        obtain ⟨raw, file, rfl⟩ := read_some read
        split at step
        · cases step
        · split at step
          · cases step
          · split at step
            · cases step
            · split at step
              · split at step <;> cases step
              · split at step
                · cases step
                · have after := congrArg Prod.fst step
                  dsimp only at after
                  rw [← after, accept_files]
                  refine ⟨raw, _, file, get_insert_self, ?_⟩
                  rw [withAttention_beyond]
  | _ => cases condition

theorem opened_sound (files : TextMap StoredFile) : Sound (Store.opened files) := by
  intro id owner owned
  rw [Store.opened, get_empty] at owned
  cases owned

theorem effect_revision (effect : Effect s id t answer)
    (committed : answer = .committed attention issued) :
    t.storedRevision id = s.storedRevision id + 1 := by
  cases effect with
  | replaced r next =>
    rw [Store.storedRevision, Store.replace, get_insert_self]
    exact next
  | accepted r next =>
    rw [Store.storedRevision, accept_files, Store.replace, get_insert_self]
    exact next
  | _ => cases committed

/-- The contract of the lane, for every interleaving of its operations on a store opened
over any files: a conditional write commits only if no attention write of its session was
accepted and the session was not deleted since its token was issued, and then keeps
everything but the attention of the latest record; a committed write raises the revision
by one; and a write that fails or is declined changes nothing. -/
theorem tokens_lose_no_update (files : TextMap StoredFile) (turns : List Turn) (s t : Store)
    (io : Io) (op : Op) (answer : Answer) (hrun : Run Step (Store.opened files) turns s)
    (hstep : Step s ⟨io, op, answer⟩ t) :
    (∀ token attention issued, op.condition = some token → answer = .committed attention issued →
      (∀ between issue earlier, turns = between ++ issue :: earlier → Issues token issue →
        ∀ turn ∈ between, ¬ Revokes token turn)
      ∧ (op.AttentionOnly → ∃ raw stored,
        s.files[token.session]? = some (.record raw) ∧ t.files[token.session]? = some (.record stored)
          ∧ stored.metadata.beyondAttention = (raw.read io).metadata.beyondAttention))
    ∧ (op.isDelete = false →
      (∀ attention issued, answer = .committed attention issued →
        t.storedRevision op.session = s.storedRevision op.session + 1)
      ∧ (answer = .declined ∨ (∃ e, answer = .failed e) → t = s)) := by
  constructor
  · rintro token attention issued condition rfl
    obtain ⟨now, kept⟩ := conditional_commit hstep condition
    refine ⟨?_, kept⟩
    rintro between issue earlier rfl issues
    obtain ⟨r, s₁, before, step, after⟩ := hrun.split
    have sound : Sound s₁ :=
      step_sound step (before.invariant Sound (opened_sound files) (fun h k => step_sound k h))
    have live := issued_live step issues
    have known : token.identity < s₁.identities := by
      obtain ⟨owner, owned, identity, -⟩ := live
      rw [← identity]
      exact sound _ owner owned
    rcases (run_spends after known live).2 with spent | ⟨-, unrevoked⟩
    · exact (live_not_spent now spent).elim
    · exact unrevoked
  · intro write
    have after : (op.run io s).1 = t := congrArg Prod.fst hstep
    have answered : (op.run io s).2 = answer := congrArg Prod.snd hstep
    have effect := run_effect io s write
    rw [after, answered] at effect
    refine ⟨fun attention issued committed => effect_revision effect committed, ?_⟩
    rintro (rfl | ⟨e, rfl⟩)
    · cases effect
      rfl
    · cases effect
      rfl

/-! The activity time is not kept: a conditional write sets it from the caller's snapshot. -/

namespace StaleActivity

/-- The activity time a session's file holds. -/
def storedActivity (id : String) (s : Store) : Option String :=
  match s.files[id]? with
  | some (.record r) => some r.metadata.lastActivity
  | _ => none

def snapshot : SessionMetadata :=
  { id := "s1", label := "T", workspace := "/tmp", task := "", cwd := "/tmp"
    status := "running", lifecyclePhase := "active", createdAt := "10:00"
    lastActivity := "10:00", metadataSource := "process", metadataConfidence := .one }

def io : Io := { now := "10:05", modified := none }

/-- The token that the whole-record write hands out. -/
def token : SessionWriteToken := { session := "s1", identity := 0, revision := 1 }

def launched : Store := ((Op.write snapshot).run io (Store.opened ∅)).1

/-- A resumed process: a scoped write without attention. -/
def resume : Op :=
  .update "s1" none .ofNone (fun m => .ok ({ m with lastActivity := "10:05" }, ()))

def resumed : Store := (resume.run io launched).1

def cleared : Store := ((Op.writeIfOwned snapshot token true).run io resumed).1

/-- The write of 10:05 is committed between the token and the conditional write, which
commits all the same and puts the activity back to 10:00. -/
theorem stale_activity_written_back :
    ((Op.write snapshot).run io (Store.opened ∅)).2 = .committed true (some token)
      ∧ (resume.run io launched).2 = .committed false none
      ∧ ((Op.writeIfOwned snapshot token true).run io resumed).2
        = .committed true (some { token with revision := 2 })
      ∧ storedActivity "s1" resumed = some "10:05"
      ∧ storedActivity "s1" cleared = some "10:00" := by
  refine ⟨?_, ?_, ?_, ?_, ?_⟩ <;> decide

/-- The three turns that lead to `cleared`, newest first. -/
def turns : List Turn :=
  [⟨io, .writeIfOwned snapshot token true, .committed true (some { token with revision := 2 })⟩,
    ⟨io, resume, .committed false none⟩, ⟨io, .write snapshot, .committed true (some token)⟩]

theorem answer_step {op : Op} (h : (op.run io s).2 = answer) :
    Step s ⟨io, op, answer⟩ (op.run io s).1 := by
  subst h
  rfl

theorem run_resumed : Run Step (Store.opened ∅) turns.tail resumed :=
  .next (.next .start (answer_step (by decide))) (answer_step (by decide))

/-- The token commits after the resumed process wrote and keeps what that wrote but its
activity time; presented again it is declined, and the store stays as it is. -/
theorem token_commits_once :
    (∃ raw stored, resumed.files["s1"]? = some (.record raw) ∧
      cleared.files["s1"]? = some (.record stored) ∧
      stored.metadata.beyondAttention = (raw.read io).metadata.beyondAttention) ∧
    cleared.storedRevision "s1" = 3 ∧
    ((Op.writeIfOwned snapshot token true).run io cleared).1 = cleared := by
  have hcommit : Step resumed ⟨io, .writeIfOwned snapshot token true,
      .committed true (some { token with revision := 2 })⟩ cleared := answer_step (by decide)
  have hagain : Step cleared ⟨io, .writeIfOwned snapshot token true, .declined⟩
      ((Op.writeIfOwned snapshot token true).run io cleared).1 := answer_step (by decide)
  obtain ⟨hconditional, hwrite⟩ := tokens_lose_no_update ∅ turns.tail resumed cleared io
    (.writeIfOwned snapshot token true) _ run_resumed hcommit
  obtain ⟨-, hdeclined⟩ := tokens_lose_no_update ∅ turns cleared _ io
    (.writeIfOwned snapshot token true) .declined (.next run_resumed hcommit) hagain
  refine ⟨(hconditional token _ _ rfl rfl).2 trivial, ?_, (hdeclined rfl).2 (.inl rfl)⟩
  exact ((hwrite rfl).1 _ _ rfl).trans (by decide)

end StaleActivity

end Orkworksd.Metadata
