import Orkworksd.SessionStore.HistoryPages

/- What a write may do to the history without counting a generation.

   `Kept` says that it may do nothing: an insert, a choice and the begin of a deletion always
   count one, an internal mutation does unless the row was and is active, and progress of a
   deletion touches deleted rows only. A patch counts none. It is of a live session, but a
   session may be archived and live again, and then the history shows the row that is
   patched (`Call.patchesArchived`).

   Main results: `call_sized`, `call_kept`. -/
namespace Orkworksd.SessionStore
open Lib Metadata List OrderedMap
open Metadata.AgentPatches (AgentPatchEnvelope Surroundings)

variable {codec : Codec} {engine : Engine} {db db' : Database} {call : Call} {id : String}
  {row : SessionRow}

/-! ## The bounds are kept -/

/-- A revision is a `u64`, and a time in microseconds an `i64`. -/
structure Codec.Bounded (codec : Codec) : Prop where
  revision : ∀ d r, codec.fromValue d = some r → r.revision < u64Limit
  micros : ∀ t n, codec.timestampMicros t = some n → i64Min ≤ n ∧ n ≤ i64Max

theorem create_sized : Sized .create where
  keys := nodup_nil
  identity := fun h => nomatch h
  revision := fun h => nomatch h
  recency := fun h => nomatch h
  organization := fun h => nomatch h
  generation := Nat.zero_le _

theorem latest_mem {times : List Int} {n : Int} (h : latest times = some n) : n ∈ times := by
  induction times generalizing n with
  | nil => cases h
  | cons time times ih =>
    rw [latest] at h
    cases hrest : latest times with
    | none =>
      rw [hrest] at h
      cases h
      exact mem_cons_self
    | some t =>
      rw [hrest, Option.elim_some] at h
      have hmem : t ∈ times := ih hrest
      split at h
      · cases h
        exact mem_cons_self
      · cases h
        exact mem_cons_of_mem time hmem

theorem recency_bounds (hbounded : codec.Bounded) (m : SessionMetadata) :
    i64Min ≤ recency codec m ∧ recency codec m ≤ i64Max := by
  have htime : ∀ n, ((latest ([m.lastOutputAt, some m.lastActivity].filterMap
      (·.bind codec.timestampMicros))).or (codec.timestampMicros m.createdAt)) = some n →
        i64Min ≤ n ∧ n ≤ i64Max := by
    intro n hn
    rcases Option.or_eq_some_iff.mp hn with hlatest | ⟨-, hcreated⟩
    · obtain ⟨time, -, htime⟩ := mem_filterMap.mp (latest_mem hlatest)
      obtain ⟨text, -, hmicros⟩ := Option.bind_eq_some_iff.mp htime
      exact hbounded.micros text n hmicros
    · exact hbounded.micros _ n hcreated
  unfold recency
  dsimp only
  generalize (latest ([m.lastOutputAt, some m.lastActivity].filterMap
    (·.bind codec.timestampMicros))).or (codec.timestampMicros m.createdAt) = time at htime ⊢
  cases time with
  | none => exact ⟨Int.le_refl _, by decide⟩
  | some n => exact htime n rfl

theorem bumpGeneration_lt (h : bumpGeneration db = .ok db') : db.generation < i64Max := by
  unfold bumpGeneration at h
  split at h
  · assumption
  · cases h

theorem Sized.bump (hdb : Sized db) (h : bumpGeneration db = .ok db') : Sized db' := by
  have hlt := bumpGeneration_lt h
  rw [bumpGeneration_eq h]
  exact {
    keys := hdb.keys
    identity := hdb.identity
    revision := hdb.revision
    recency := hdb.recency
    organization := hdb.organization
    generation := hlt }

theorem Sized.set (hdb : Sized db) {organization : OrderedMap String OrganizationRow}
    {metadataSearch : OrderedMap Nat SearchRow} {deletionJobs : OrderedMap String DeletionJob}
    (hidentity : validIdentity id row.createdAt = true) (hrevision : row.revision < u64Limit)
    (hrecency : i64Min ≤ row.recency ∧ row.recency ≤ i64Max)
    (horganization : ∀ {id o}, OrderedMap.get organization id = some o → o.revision < u64Limit) :
    Sized ⟨db.sessions.set id row, organization, metadataSearch, deletionJobs, db.generation⟩ := by
  have hcases : ∀ {j stored}, (db.sessions.set id row).get j = some stored →
      j = id ∧ stored = row ∨ db.sessions.get j = some stored := by
    intro j stored hget
    rw [get_set] at hget
    by_cases hj : id = j
    · rw [if_pos hj] at hget
      cases hget
      exact .inl ⟨hj.symm, rfl⟩
    · rw [if_neg hj] at hget
      exact .inr hget
  refine ⟨nodup_keys_set hdb.keys, ?_, ?_, ?_, horganization, hdb.generation⟩
  · intro j stored hget
    rcases hcases hget with ⟨rfl, rfl⟩ | hold
    · exact hidentity
    · exact hdb.identity hold
  · intro j stored hget
    rcases hcases hget with ⟨rfl, rfl⟩ | hold
    · exact hrevision
    · exact hdb.revision hold
  · intro j stored hget
    rcases hcases hget with ⟨rfl, rfl⟩ | hold
    · exact hrecency
    · exact hdb.recency hold

variable {record : RevisionedSession} {document : Json}

theorem Written.sized (hbounded : codec.Bounded) (hdb : Sized db)
    (hw : Written codec db document record db') (hrevision : record.revision < u64Limit)
    (hidentity : db.sessions.get record.metadata.id = none →
      validIdentity record.metadata.id record.metadata.createdAt = true) : Sized db' := by
  obtain ⟨-, rfl⟩ := persist_eq hw.persisted
  refine hdb.set ?_ hrevision (recency_bounds hbounded _) hdb.organization
  rw [(persistedRow_spec codec document hw.row).1]
  cases hget : db.sessions.get record.metadata.id with
  | none => exact hidentity hget
  | some row =>
    rw [← (hw.row row hget).2]
    exact hdb.identity hget

theorem insert_sized (hlaw : codec.Lawful) (hbounded : codec.Bounded) (hdb : Sized db)
    (h : insert codec db document = .ok db') : Sized db' := by
  obtain ⟨document', record, stored, hcanonical, hnone, hw, hbump⟩ := insert_spec hlaw h
  obtain ⟨read, hread, hrevision, hmetadata, hvalid⟩ := canonical_identity hcanonical
  refine (hw.sized hbounded hdb ?_ fun _ => ?_).bump hbump
  · rw [hrevision]
    exact hbounded.revision _ _ hread
  · obtain ⟨hid, hcreated⟩ := normalize_identity read.metadata
    rw [hmetadata, hid, hcreated]
    exact hvalid

theorem call_sized (hlaw : codec.Lawful) (hbounded : codec.Bounded) (hc : Consistent db)
    (hdb : Sized db) (h : call.run codec db = .ok db') : Sized db' := by
  cases call with
  | insert document => exact insert_sized hlaw hbounded hdb h
  | createSession document =>
    cases document with
    | object members => exact insert_sized hlaw hbounded hdb h
    | _ => cases h
  | patch id envelope surroundings now =>
    obtain ⟨original, read, document, record, hread, -, -, rfl, hnext, hw⟩ := patch_spec hlaw h
    obtain ⟨row, hget, -⟩ := readRecord_spec hlaw hread
    exact hw.sized hbounded hdb (nextOf_spec hnext).2 (fun hnone => by
      rw [hget] at hnone
      cases hnone)
  | mutateInternal env id created expected proof intent ready now =>
    obtain ⟨original, read, hread, hsame | ⟨document, record, stored, rfl, hnext, hw, hout⟩⟩ :=
      mutateInternal_spec hlaw h
    · exact hsame ▸ hdb
    · obtain ⟨row, hget, -⟩ := readRecord_spec hlaw hread
      have hstored := hw.sized hbounded hdb (nextOf_spec hnext).2 (fun hnone => by
        rw [hget] at hnone
        cases hnone)
      rcases hout with hbump | ⟨rfl, -⟩
      · exact hstored.bump hbump
      · exact hstored
  | organize id created revision choice =>
    obtain ⟨row, o, hrow, -, horevision, hbump⟩ := organize_spec hlaw hc h
    have hidentity := hdb.identity hrow.stored
    have hrevision := hdb.revision hrow.stored
    have hrecency := hdb.recency hrow.stored
    refine Sized.bump ?_ hbump
    refine hdb.set hidentity hrevision hrecency ?_
    intro j o' ho'
    rw [get_set] at ho'
    split at ho'
    · cases ho'
      exact horevision
    · exact hdb.organization ho'
  | beginDelete id created revision organizationRevision =>
    obtain ⟨row, hrow, hbump⟩ := beginDelete_spec hlaw h
    have hidentity := hdb.identity hrow.stored
    have hrevision := hdb.revision hrow.stored
    have hrecency := hdb.recency hrow.stored
    refine Sized.bump ?_ hbump
    exact hdb.set hidentity hrevision hrecency hdb.organization
  | deletionProgress id created progress complete =>
    obtain ⟨job, row, -, -, hget, -, hcreated, -, ⟨-, rfl⟩ | ⟨-, rfl⟩⟩ := deletionProgress_spec hc h
    · obtain ⟨hsessions, horganization, -⟩ := deleteSession_get hc hget hcreated
      have hold : ∀ {j stored}, (deleteSession db id created).sessions.get j = some stored →
          db.sessions.get j = some stored := by
        intro j stored hj
        rw [hsessions] at hj
        split at hj
        · cases hj
        · exact hj
      refine ⟨nodup_keys_erase hdb.keys, fun hj => hdb.identity (hold hj),
        fun hj => hdb.revision (hold hj), fun hj => hdb.recency (hold hj), ?_, hdb.generation⟩
      intro j o ho
      rw [horganization] at ho
      split at ho
      · cases ho
      · exact hdb.organization ho
    · exact ⟨hdb.keys, hdb.identity, hdb.revision, hdb.recency, hdb.organization, hdb.generation⟩

/-! ## What the history shows -/

/-- The row of a session that some query of the history may show. -/
def shownRow (db : Database) (id : String) : Option SessionRow :=
  (db.sessions.get id).filter (fun row => row.deleted = false && row.state ≠ .active)

structure SameHistory (db db' : Database) : Prop where
  rows : ∀ id, shownRow db' id = shownRow db id
  revisions : ∀ id row, shownRow db id = some row →
    organizationRevision db' id row.createdAt = organizationRevision db id row.createdAt

/-- Nothing that the history shows changes unless a generation is counted. -/
structure Kept (db db' : Database) : Prop where
  counted : db.generation ≤ db'.generation
  same : db'.generation = db.generation → SameHistory db db'

theorem Kept.refl (db : Database) : Kept db db :=
  ⟨Nat.le_refl _, fun _ => ⟨fun _ => rfl, fun _ _ _ => rfl⟩⟩

theorem Kept.trans {db'' : Database} (h : Kept db db') (h' : Kept db' db'') : Kept db db'' := by
  refine ⟨Nat.le_trans h.counted h'.counted, fun heq => ?_⟩
  have hle := h.counted
  have hle' := h'.counted
  have hfirst := h.same (by omega)
  have hsecond := h'.same (by omega)
  refine ⟨fun id => (hsecond.rows id).trans (hfirst.rows id), fun id row hrow => ?_⟩
  exact (hsecond.revisions id row ((hfirst.rows id).trans hrow)).trans
    (hfirst.revisions id row hrow)

theorem Kept.of_bump {stored : Database} (hgeneration : stored.generation = db.generation)
    (h : bumpGeneration stored = .ok db') : Kept db db' := by
  have hnext : db'.generation = db.generation + 1 := by
    rw [bumpGeneration_eq h, hgeneration]
  refine ⟨by omega, fun heq => ?_⟩
  omega

theorem Written.generation (hw : Written codec db document record db') :
    db'.generation = db.generation := by
  obtain ⟨-, rfl⟩ := persist_eq hw.persisted
  rfl

theorem Written.kept (hw : Written codec db document record db')
    (hwas : (db.sessions.get record.metadata.id).any (fun row => row.state ≠ .active) = false)
    (his : (db'.sessions.get record.metadata.id).any (fun row => row.state ≠ .active) = false) :
    Kept db db' := by
  have hhidden : ∀ db : Database,
      (db.sessions.get record.metadata.id).any (fun row => row.state ≠ .active) = false →
        shownRow db record.metadata.id = none := by
    intro db hactive
    rw [shownRow]
    cases hget : db.sessions.get record.metadata.id with
    | none => rfl
    | some row =>
      rw [hget, Option.any_some] at hactive
      rw [Option.filter_some, hactive, Bool.and_false]
      rfl
  refine ⟨hw.generation.ge, fun _ => ⟨fun id => ?_, fun id row _ => ?_⟩⟩
  · by_cases hid : record.metadata.id = id
    · subst hid
      exact (hhidden db' his).trans (hhidden db hwas).symm
    · obtain ⟨-, rfl⟩ := persist_eq hw.persisted
      exact congrArg (Option.filter _) (get_set.trans (if_neg hid))
  · obtain ⟨-, rfl⟩ := persist_eq hw.persisted
    rfl

/-! ## Patches -/

theorem recordedState_alive {m : SessionMetadata} (h : m.lifecycle = "alive") :
    recordedState m = .active := by
  unfold recordedState
  rw [h]
  have hdead : ("alive" == "dead") = false := by decide
  have halive : ("alive" == "alive") = true := by decide
  rw [hdead, halive, Bool.and_false, Bool.false_and, Bool.true_or, Bool.true_or]
  rfl

/-- The call is a patch of an archived session whose record is alive. -/
def Call.patchesArchived (codec : Codec) (db : Database) : Call → Bool
  | .patch id _ _ _ =>
    (db.sessions.get id).any (fun row => row.state = .archived) &&
      (readRecord codec db id .missing).toOption.any (fun read =>
        read.2.metadata.lifecycle = "alive")
  | _ => false

theorem patch_kept {envelope : Option AgentPatchEnvelope} {surroundings : Surroundings}
    {now : String} (hlaw : codec.Lawful) (hc : Consistent db)
    (hquiet : Call.patchesArchived codec db (.patch id envelope surroundings now) = false)
    (h : patch codec db id envelope surroundings now = .ok db') : Kept db db' := by
  obtain ⟨original, read, document, record, hread, halive, halive', rfl, -, hw⟩ :=
    patch_spec hlaw h
  obtain ⟨row, hget, hvisible, -, hcreated, -, hstate⟩ := readRecord_spec hlaw hread
  obtain ⟨hrow, -, -⟩ := (hc.rows hget).visible hvisible
  obtain ⟨m, hm⟩ := (hc.rows hget).document
  have hrow := hrow m hm
  have hchosen : (db.organization.get record.metadata.id).any
      (fun o => o.choice = .archived) = false := by
    rw [Call.patchesArchived, hget, Option.any_some, hread] at hquiet
    cases hany : (db.organization.get record.metadata.id).any (fun o => o.choice = .archived) with
    | false => rfl
    | true =>
      rw [expectedState, if_pos hany] at hrow
      have hlive : (Except.toOption (.ok (original, read) : Result _)).any
          (fun read => read.2.metadata.lifecycle = "alive") = true := decide_eq_true halive
      rw [hlive, Bool.and_true] at hquiet
      exact absurd hrow (of_decide_eq_false hquiet)
  have hactive : row.state = .active := by
    rw [hrow, expectedState, hchosen, if_neg Bool.false_ne_true, hstate m hm.object,
      recordedState_alive halive]
    rfl
  refine hw.kept ?_ ?_
  · rw [hget, Option.any_some, hactive]
    rfl
  · obtain ⟨-, rfl⟩ := persist_eq hw.persisted
    have hstored : persistedState db record.metadata = .active := by
      rw [persistedState_eq (m := m) hc hw.row ((hstate m hm.object).trans
        ((recordedState_alive halive).trans (recordedState_alive halive').symm)),
        expectedState, hchosen, if_neg Bool.false_ne_true, hstate m hm.object,
        recordedState_alive halive]
      rfl
    have hnew : ∀ sessions : OrderedMap String SessionRow,
        (sessions.set record.metadata.id (persistedRow codec db document record)).get
          record.metadata.id = some (persistedRow codec db document record) :=
      fun _ => get_set.trans (if_pos rfl)
    show ((db.sessions.set record.metadata.id (persistedRow codec db document record)).get
      record.metadata.id).any (fun row => row.state ≠ .active) = false
    rw [hnew, Option.any_some]
    exact decide_eq_false (not_not.mpr hstored)

/-! ## Calls -/

theorem deletion_kept (hc : Consistent db) {created : String} (hget : db.sessions.get id = some row)
    (hdeleted : row.deleted = true) (hcreated : row.createdAt = created) :
    Kept db (deleteSession db id created) := by
  obtain ⟨hsessions, horganization, -⟩ := deleteSession_get hc hget hcreated
  have hhidden : shownRow db id = none := by
    rw [shownRow, hget, Option.filter_some, hdeleted]
    rfl
  refine ⟨Nat.le_refl _, fun _ => ⟨fun j => ?_, fun j row' hrow' => ?_⟩⟩
  · rw [shownRow, hsessions]
    by_cases hj : id = j
    · rw [if_pos hj, ← hj, hhidden]
      rfl
    · rw [if_neg hj]
      rfl
  · have hj : id ≠ j := by
      intro heq
      rw [← heq, hhidden] at hrow'
      cases hrow'
    rw [organizationRevision, horganization, if_neg hj]
    rfl

/-- No call but a patch of an archived session changes what the history shows without
counting a generation. -/
theorem call_kept (hlaw : codec.Lawful) (hc : Consistent db)
    (hquiet : call.patchesArchived codec db = false) (h : call.run codec db = .ok db') :
    Kept db db' := by
  have hinsert : ∀ {document}, insert codec db document = .ok db' → Kept db db' := by
    intro document h
    obtain ⟨document', record, stored, -, -, hw, hbump⟩ := insert_spec hlaw h
    exact .of_bump hw.generation hbump
  cases call with
  | insert document => exact hinsert h
  | createSession document =>
    cases document with
    | object members => exact hinsert h
    | _ => cases h
  | patch id envelope surroundings now => exact patch_kept hlaw hc hquiet h
  | mutateInternal env id created expected proof intent ready now =>
    obtain ⟨original, read, hread, hsame | ⟨document, record, stored, rfl, -, hw, hout⟩⟩ :=
      mutateInternal_spec hlaw h
    · exact hsame ▸ .refl db
    · rcases hout with hbump | ⟨rfl, hwas, his⟩
      · exact .of_bump hw.generation hbump
      · exact hw.kept hwas his
  | organize id created revision choice =>
    obtain ⟨row, o, -, -, -, hbump⟩ := organize_spec hlaw hc h
    exact Kept.of_bump (by rfl) hbump
  | beginDelete id created revision organizationRevision =>
    obtain ⟨row, -, hbump⟩ := beginDelete_spec hlaw h
    exact Kept.of_bump (by rfl) hbump
  | deletionProgress id created progress complete =>
    obtain ⟨job, row, -, -, hget, hdeleted, hcreated, -, ⟨-, rfl⟩ | ⟨-, rfl⟩⟩ :=
      deletionProgress_spec hc h
    · exact deletion_kept hc hget hdeleted hcreated
    · exact ⟨Nat.le_refl _, fun _ => ⟨fun _ => rfl, fun _ _ _ => rfl⟩⟩

end Orkworksd.SessionStore
