import Orkworksd.SessionStore.Documents

/- The tables of the session database agree with each other and with the documents.

   `RowOk` is what holds of one session row and the rows that go with it, `Consistent` of
   all tables. Every operation is a transaction that restores both; what it may do to a
   tombstone and to its job is said by `deleted_step`.

   Main result: `tables_stay_consistent`. -/
namespace Orkworksd.SessionStore
open Lib Metadata OrderedMap
open Metadata.AgentPatches (AgentPatchEnvelope Surroundings)

/-! ## The invariant -/

/-- The document of a row repeats its identity and its revision. -/
structure RowDocument (id : String) (row : SessionRow) (m : Members) : Prop where
  object : row.metadata = .object m
  id : m.text "id" = some id
  createdAt : m.text "createdAt" = some row.createdAt
  revision : m.text "metadataRevision" = some (toString row.revision)

/-- Archived by choice, or else the recorded state of the document. -/
def expectedState (db : Database) (id : String) (m : Members) : RowState :=
  if (db.organization.get id).any (fun o => o.choice = .archived) then .archived
  else .ofRecorded (documentState m)

structure RowOk (db : Database) (id : String) (row : SessionRow) : Prop where
  document : ∃ m, RowDocument id row m
  key : 0 < row.searchRowid ∧ row.searchRowid ≤ i64Max
  visible : row.deleted = false →
    (∀ m, RowDocument id row m → row.state = expectedState db id m) ∧
    db.metadataSearch.get row.searchRowid = some (row.searchRow id) ∧
    db.deletionJobs.get id = none
  tombstone : row.deleted = true →
    (∀ m, RowDocument id row m → documentState m = .closed) ∧
    db.metadataSearch.get row.searchRowid = none ∧
    ∃ job, db.deletionJobs.get id = some job ∧ job.createdAt = row.createdAt

structure Consistent (db : Database) : Prop where
  single : (OrderedMap.keys db.metadataSearch).Nodup
  rows : ∀ {id row}, db.sessions.get id = some row → RowOk db id row
  keys : ∀ {id id' row row'}, db.sessions.get id = some row → db.sessions.get id' = some row' →
    row.searchRowid = row'.searchRowid → id = id'
  index : ∀ {key entry}, db.metadataSearch.get key = some entry →
    ∃ id row, db.sessions.get id = some row ∧ row.deleted = false ∧ row.searchRowid = key
  organization : ∀ {id o}, db.organization.get id = some o →
    ∃ row, db.sessions.get id = some row ∧ row.createdAt = o.createdAt
  jobs : ∀ {id job}, db.deletionJobs.get id = some job →
    ∃ row, db.sessions.get id = some row ∧ row.deleted = true ∧ row.createdAt = job.createdAt

variable {codec : Codec} {db db' : Database} {id : String} {row : SessionRow}

theorem create_consistent : Consistent .create where
  single := List.nodup_nil
  rows := fun h => nomatch h
  keys := fun h => nomatch h
  index := fun h => nomatch h
  organization := fun h => nomatch h
  jobs := fun h => nomatch h

theorem bumpGeneration_eq (h : bumpGeneration db = .ok db') :
    db' = { db with generation := db.generation + 1 } := by
  unfold bumpGeneration at h
  split at h
  · cases h
    rfl
  · cases h

theorem Consistent.bump (h : Consistent db) (hbump : bumpGeneration db = .ok db') :
    Consistent db' := by
  rw [bumpGeneration_eq hbump]
  exact {
    single := h.single
    rows := fun hget =>
      { document := (h.rows hget).document
        key := (h.rows hget).key
        visible := (h.rows hget).visible
        tombstone := (h.rows hget).tombstone }
    keys := h.keys
    index := h.index
    organization := h.organization
    jobs := h.jobs }

theorem document_unique {m m' : Members} (h : RowDocument id row m) (h' : RowDocument id row m') :
    m = m' := by
  cases h.object.symm.trans h'.object
  rfl

/-! ## Persisting a document -/

theorem le_maxSearchRowid {sessions : OrderedMap String SessionRow}
    (h : sessions.get id = some row) : row.searchRowid ≤ maxSearchRowid sessions := by
  induction sessions with
  | nil => cases h
  | cons entry sessions ih =>
    obtain ⟨i, first⟩ := entry
    rw [OrderedMap.get] at h
    rw [maxSearchRowid]
    split at h
    · cases h
      exact Nat.le_max_left _ _
    · exact Nat.le_trans (ih h) (Nat.le_max_right _ _)

theorem searchKey_unique (h : Consistent db) {j : String} (hj : id ≠ j)
    (hget : db.sessions.get j = some row) : searchKey db id ≠ row.searchRowid := by
  unfold searchKey
  cases hid : db.sessions.get id with
  | some own => exact fun heq => hj (h.keys hid hget heq)
  | none =>
    have hle := le_maxSearchRowid hget
    simp only
    omega

variable {record : RevisionedSession} {document : Json}

theorem persist_eq (h : persist codec db document record = .ok db') :
    searchKey db record.metadata.id ≤ i64Max ∧
      db' = { db with
        sessions := db.sessions.set record.metadata.id (persistedRow codec db document record)
        metadataSearch := (db.metadataSearch.erase (searchKey db record.metadata.id)).set
          (searchKey db record.metadata.id)
          ((persistedRow codec db document record).searchRow record.metadata.id) } := by
  unfold persist at h
  dsimp only at h
  split at h
  · cases h
  · rename_i hkey
    split at h
    · cases h
    · cases h
      exact ⟨Nat.le_of_not_lt hkey, rfl⟩

theorem persistedRow_spec (codec : Codec) (document : Json)
    (hstored : ∀ row, db.sessions.get record.metadata.id = some row →
      row.deleted = false ∧ row.createdAt = record.metadata.createdAt) :
    (persistedRow codec db document record).createdAt = record.metadata.createdAt ∧
      (persistedRow codec db document record).deleted = false := by
  unfold persistedRow
  dsimp only
  cases hget : db.sessions.get record.metadata.id with
  | none => exact ⟨rfl, rfl⟩
  | some row => exact ⟨(hstored row hget).2, (hstored row hget).1⟩

theorem persistedState_eq (h : Consistent db) {m : Members}
    (hstored : ∀ row, db.sessions.get record.metadata.id = some row →
      row.deleted = false ∧ row.createdAt = record.metadata.createdAt)
    (hstate : documentState m = recordedState record.metadata) :
    persistedState db record.metadata = expectedState db record.metadata.id m := by
  unfold persistedState expectedState
  rw [hstate]
  cases ho : db.organization.get record.metadata.id with
  | none => rfl
  | some o =>
    obtain ⟨row, hget, hcreated⟩ := h.organization ho
    have hsame : o.createdAt = record.metadata.createdAt :=
      hcreated.symm.trans (hstored row hget).2
    have hfilter : (some o).filter (fun row => row.createdAt = record.metadata.createdAt) =
        some o := by
      rw [Option.filter_some, if_pos (by simpa using hsame)]
    simp only [hfilter]

theorem persist_consistent (h : Consistent db) (hdoc : Describes document record)
    (hstored : ∀ row, db.sessions.get record.metadata.id = some row →
      row.deleted = false ∧ row.createdAt = record.metadata.createdAt)
    (hpersist : persist codec db document record = .ok db') : Consistent db' := by
  obtain ⟨hkey, rfl⟩ := persist_eq hpersist
  obtain ⟨hcreated, hvisible⟩ := persistedRow_spec codec document hstored
  obtain ⟨m, hobject, hid, hcreatedAt, hrevision, hstate⟩ := hdoc.members
  have hdocument : RowDocument record.metadata.id (persistedRow codec db document record) m :=
    ⟨hobject, hid, hcreatedAt.trans (congrArg some hcreated.symm), hrevision⟩
  have hunique : ∀ {j row}, record.metadata.id ≠ j → db.sessions.get j = some row →
      searchKey db record.metadata.id ≠ row.searchRowid := fun hj hget =>
    searchKey_unique h hj hget
  have hnojob : db.deletionJobs.get record.metadata.id = none := by
    cases hjob : db.deletionJobs.get record.metadata.id with
    | none => rfl
    | some job =>
      obtain ⟨row, hget, hdeleted, -⟩ := h.jobs hjob
      rw [(hstored row hget).1] at hdeleted
      cases hdeleted
  have hpositive : 0 < searchKey db record.metadata.id := by
    unfold searchKey
    cases hget : db.sessions.get record.metadata.id with
    | none => exact Nat.zero_lt_succ _
    | some row => exact (h.rows hget).key.1
  have hsearch : ∀ key, (((db.metadataSearch.erase (searchKey db record.metadata.id)).set
      (searchKey db record.metadata.id)
      ((persistedRow codec db document record).searchRow record.metadata.id)).get key) =
      if searchKey db record.metadata.id = key then
        some ((persistedRow codec db document record).searchRow record.metadata.id)
      else db.metadataSearch.get key := by
    intro key
    rw [get_set, get_erase]
    split <;> rfl
  refine ⟨nodup_keys_set (nodup_keys_erase h.single), ?_, ?_, ?_, ?_, ?_⟩
  · intro j row hget
    rw [get_set] at hget
    split at hget
    · rename_i hj
      subst hj
      cases hget
      refine ⟨⟨m, hdocument⟩, ⟨hpositive, hkey⟩, fun _ => ⟨?_, ?_, hnojob⟩, fun hdeleted => ?_⟩
      · intro m' hm'
        cases document_unique hdocument hm'
        exact persistedState_eq h hstored hstate
      · exact (hsearch _).trans (if_pos rfl)
      · rw [hvisible] at hdeleted
        cases hdeleted
    · rename_i hj
      have hold := h.rows hget
      have hsame := (hsearch row.searchRowid).trans (if_neg (hunique hj hget))
      exact ⟨hold.document, hold.key,
        fun hdel => ⟨(hold.visible hdel).1, hsame.trans (hold.visible hdel).2.1,
          (hold.visible hdel).2.2⟩,
        fun hdel => ⟨(hold.tombstone hdel).1, hsame.trans (hold.tombstone hdel).2.1,
          (hold.tombstone hdel).2.2⟩⟩
  · intro j j' row row' hget hget' heq
    rw [get_set] at hget hget'
    split at hget <;> split at hget'
    · rename_i hj hj'
      exact hj.symm.trans hj'
    · rename_i hj hj'
      cases hget
      exact absurd heq (hunique hj' hget')
    · rename_i hj hj'
      cases hget'
      exact absurd heq.symm (hunique hj hget)
    · exact h.keys hget hget' heq
  · intro key entry hentry
    rw [hsearch] at hentry
    split at hentry
    · rename_i heq
      exact ⟨record.metadata.id, _, (get_set).trans (if_pos rfl), hvisible, heq⟩
    · rename_i hne
      obtain ⟨j, row, hget, hdeleted, hrow⟩ := h.index hentry
      have hj : record.metadata.id ≠ j := by
        intro heq
        subst heq
        refine hne (Eq.trans ?_ hrow)
        rw [searchKey, hget]
      exact ⟨j, row, (get_set).trans ((if_neg hj).trans hget), hdeleted, hrow⟩
  · intro j o ho
    obtain ⟨row, hget, hrow⟩ := h.organization ho
    by_cases hj : record.metadata.id = j
    · subst hj
      refine ⟨_, (get_set).trans (if_pos rfl), ?_⟩
      exact hcreated.trans ((hstored row hget).2.symm.trans hrow)
    · exact ⟨row, (get_set).trans ((if_neg hj).trans hget), hrow⟩
  · intro j job hjob
    obtain ⟨row, hget, hdeleted, hrow⟩ := h.jobs hjob
    have hj : record.metadata.id ≠ j := by
      intro heq
      subst heq
      rw [(hstored row hget).1] at hdeleted
      cases hdeleted
    exact ⟨row, (get_set).trans ((if_neg hj).trans hget), hdeleted, hrow⟩

/-! ## Operations -/

/-- A write of the document of a session that is new or visible. -/
structure Writes (codec : Codec) (db : Database) (id : String) (db' : Database) : Prop where
  written : ∃ document record stored, Describes document record ∧ record.metadata.id = id ∧
    (∀ row, db.sessions.get id = some row →
      row.deleted = false ∧ row.createdAt = record.metadata.createdAt) ∧
    persist codec db document record = .ok stored ∧
    (bumpGeneration stored = .ok db' ∨ db' = stored)

theorem Writes.consistent (hw : Writes codec db id db') (h : Consistent db) : Consistent db' := by
  obtain ⟨document, record, stored, hdoc, rfl, hrow, hpersist, hbump⟩ := hw.written
  have hstored := persist_consistent h hdoc hrow hpersist
  rcases hbump with hbump | rfl
  · exact hstored.bump hbump
  · exact hstored

theorem checkSize_bind {α : Type} {f : Unit → Result α} {a : α}
    (h : (checkSize codec document >>= f) = .ok a) : f () = .ok a := by
  obtain ⟨u, -, hf⟩ := bind_eq_ok.mp h
  exact hf

theorem canonical_describes {document' : Json} (hlaw : codec.Lawful)
    (h : canonical codec document = .ok (document', record)) : Describes document' record := by
  unfold canonical at h
  have h := checkSize_bind h
  cases hfrom : codec.fromValue document with
  | none => simp [hfrom] at h
  | some read =>
    simp only [hfrom] at h
    split at h
    · cases h
    · obtain ⟨merged, hmerge, h⟩ := bind_eq_ok.mp h
      have h := checkSize_bind h
      cases h
      exact mergeKnown_describes hlaw hmerge

/-- What a write of this record leaves, before the generation is counted. -/
structure Written (codec : Codec) (db : Database) (document : Json) (record : RevisionedSession)
    (stored : Database) : Prop where
  describes : Describes document record
  row : ∀ row, db.sessions.get record.metadata.id = some row →
    row.deleted = false ∧ row.createdAt = record.metadata.createdAt
  persisted : persist codec db document record = .ok stored

theorem Written.writes {stored : Database} (hw : Written codec db document record stored)
    (hbump : bumpGeneration stored = .ok db' ∨ db' = stored) :
    Writes codec db record.metadata.id db' :=
  ⟨document, record, stored, hw.describes, rfl, hw.row, hw.persisted, hbump⟩

theorem canonical_identity {document' : Json}
    (h : canonical codec document = .ok (document', record)) :
    ∃ read, codec.fromValue document = some read ∧ record.revision = read.revision ∧
      record.metadata = normalizeSessionMetadata read.metadata ∧
      validIdentity read.metadata.id read.metadata.createdAt = true := by
  unfold canonical at h
  have h := checkSize_bind h
  cases hfrom : codec.fromValue document with
  | none => simp [hfrom] at h
  | some read =>
    simp only [hfrom] at h
    split at h
    · cases h
    · rename_i hvalid
      obtain ⟨merged, -, h⟩ := bind_eq_ok.mp h
      have h := checkSize_bind h
      cases h
      exact ⟨read, rfl, rfl, rfl, by simpa using hvalid⟩

section
variable (hlaw : codec.Lawful)
include hlaw

variable {envelope : Option AgentPatchEnvelope} {surroundings : Surroundings}
  {intent : InternalMutation} {expected : Option Nat}

theorem insert_spec (h : insert codec db document = .ok db') :
    ∃ document' record stored, canonical codec document = .ok (document', record) ∧
      db.sessions.get record.metadata.id = none ∧ Written codec db document' record stored ∧
      bumpGeneration stored = .ok db' := by
  unfold insert at h
  obtain ⟨⟨document', record⟩, hcanonical, h⟩ := bind_eq_ok.mp h
  simp only at h
  split at h
  · cases h
  · rename_i hnew
    obtain ⟨stored, hpersist, hbump⟩ := bind_eq_ok.mp h
    have hnone : db.sessions.get record.metadata.id = none := by simpa using hnew
    refine ⟨document', record, stored, hcanonical, hnone,
      ⟨canonical_describes hlaw hcanonical, ?_, hpersist⟩, hbump⟩
    intro row hget
    rw [hnone] at hget
    cases hget

theorem insert_writes (h : insert codec db document = .ok db') :
    ∃ id, db.sessions.get id = none ∧ Writes codec db id db' := by
  obtain ⟨document', record, stored, -, hnone, hw, hbump⟩ := insert_spec hlaw h
  exact ⟨record.metadata.id, hnone, hw.writes (.inl hbump)⟩

variable {now : String}

theorem patch_spec (h : patch codec db id envelope surroundings now = .ok db') :
    ∃ original read document record, readRecord codec db id .missing = .ok (original, read) ∧
      read.metadata.lifecycle = "alive" ∧ record.metadata.lifecycle = "alive" ∧
      record.metadata.id = id ∧ nextOf read.revision = .ok record.revision ∧
      Written codec db document record db' := by
  unfold patch at h
  cases envelope with
  | none => cases h
  | some envelope =>
    simp only at h
    obtain ⟨⟨original, read⟩, hread, h⟩ := bind_eq_ok.mp h
    simp only at h
    split at h
    · cases h
    · obtain ⟨next, hnext, h⟩ := bind_eq_ok.mp h
      obtain ⟨metadata, happly, h⟩ := bind_eq_ok.mp h
      obtain ⟨document, hmerge, h⟩ := bind_eq_ok.mp h
      have h := checkSize_bind h
      obtain ⟨stored, hpersist, h⟩ := bind_eq_ok.mp h
      obtain ⟨row, hget, hdeleted, hid, hcreated, -, -⟩ := readRecord_spec hlaw hread
      obtain ⟨hbefore, hothers⟩ := AgentPatches.applyChecked_others (mapError_eq_ok.mp happly)
      have hid' : metadata.id = read.metadata.id :=
        (congrArg SessionMetadata.id hothers :)
      have hcreated' : metadata.createdAt = read.metadata.createdAt :=
        (congrArg SessionMetadata.createdAt hothers :)
      have hlifecycle : metadata.lifecycle = read.metadata.lifecycle :=
        (congrArg SessionMetadata.lifecycle hothers :)
      have hstamped : (stamp envelope.patch.scope now metadata).lifecycle = "alive" :=
        hlifecycle.trans hbefore
      rw [if_neg (not_not.mpr hstamped)] at h
      cases h
      refine ⟨original, read, document, _, hread, hbefore, hstamped, hid'.trans hid, hnext,
        mergeKnown_describes hlaw hmerge, ?_, hpersist⟩
      intro row' hget'
      cases hget.symm.trans ((congrArg db.sessions.get (hid'.trans hid).symm).trans hget')
      exact ⟨hdeleted, hcreated.symm.trans hcreated'.symm⟩

theorem patch_writes (h : patch codec db id envelope surroundings now = .ok db') :
    ∃ row, db.sessions.get id = some row ∧ row.deleted = false ∧ Writes codec db id db' := by
  obtain ⟨original, read, document, record, hread, -, -, rfl, -, hw⟩ := patch_spec hlaw h
  obtain ⟨row, hget, hdeleted, -⟩ := readRecord_spec hlaw hread
  exact ⟨row, hget, hdeleted, hw.writes (.inr rfl)⟩

variable {created : String}

theorem mutateInternal_spec {env : Env} {proof : Option Bool} {ready : Bool × Bool}
    (h : mutateInternal codec env db id created expected proof intent ready now = .ok db') :
    ∃ original read, readRecord codec db id .missing = .ok (original, read) ∧
      (db' = db ∨ ∃ document record stored, record.metadata.id = id ∧
        nextOf read.revision = .ok record.revision ∧ Written codec db document record stored ∧
        (bumpGeneration stored = .ok db' ∨ db' = stored ∧
          (db.sessions.get id).any (fun row => row.state ≠ .active) = false ∧
          (stored.sessions.get id).any (fun row => row.state ≠ .active) = false)) := by
  unfold mutateInternal at h
  split at h
  · cases h
  · split at h
    · cases h
    · obtain ⟨⟨original, read⟩, hread, h⟩ := bind_eq_ok.mp h
      obtain ⟨row, hget, hdeleted, hid, hcreated, -, -⟩ := readRecord_spec hlaw hread
      refine ⟨original, read, hread, ?_⟩
      simp only at h
      split at h
      · cases h
      · rename_i hsame
        have hcreatedAt : read.metadata.createdAt = created :=
          Decidable.not_not.mp (not_or.mp hsame).1
        split at h
        · cases h
        · cases h
        · split at h
          · cases h
            exact .inl rfl
          · split at h
            · cases h
            · rename_i hkept
              obtain ⟨hid', hrest⟩ := not_or.mp hkept
              have hid' := Decidable.not_not.mp hid'
              have hcreated' := Decidable.not_not.mp (not_or.mp hrest).1
              obtain ⟨next, hnext, h⟩ := bind_eq_ok.mp h
              obtain ⟨document, hmerge, h⟩ := bind_eq_ok.mp h
              have h := checkSize_bind h
              obtain ⟨stored, hpersist, h⟩ := bind_eq_ok.mp h
              refine .inr ⟨document, _, stored, hid', hnext,
                ⟨mergeKnown_describes hlaw hmerge, ?_, hpersist⟩, ?_⟩
              · intro row' hget'
                cases hget.symm.trans ((congrArg db.sessions.get hid'.symm).trans hget')
                exact ⟨hdeleted, (hcreated.symm.trans hcreatedAt).trans hcreated'.symm⟩
              · split at h
                · obtain ⟨final, hbump, h⟩ := bind_eq_ok.mp h
                  split at h
                  · cases h
                  · cases h
                    exact .inl hbump
                · rename_i hactive
                  obtain ⟨final, hsame, h⟩ := bind_eq_ok.mp h
                  cases hsame
                  split at h
                  · cases h
                  · cases h
                    obtain ⟨hwas, his⟩ := Bool.or_eq_false_iff.mp (Bool.not_eq_true _ ▸ hactive)
                    exact .inr ⟨rfl, hwas, his⟩

theorem mutateInternal_writes {env : Env} {proof : Option Bool} {ready : Bool × Bool}
    (h : mutateInternal codec env db id created expected proof intent ready now = .ok db') :
    ∃ row, db.sessions.get id = some row ∧ row.deleted = false ∧
      (db' = db ∨ Writes codec db id db') := by
  obtain ⟨original, read, hread, hout⟩ := mutateInternal_spec hlaw h
  obtain ⟨row, hget, hdeleted, -⟩ := readRecord_spec hlaw hread
  refine ⟨row, hget, hdeleted, ?_⟩
  rcases hout with hsame | ⟨document, record, stored, rfl, -, hw, hbump⟩
  · exact .inl hsame
  · exact .inr (hw.writes (hbump.imp id And.left))

theorem createSession_writes (h : createSession codec db document = .ok db') :
    ∃ id, db.sessions.get id = none ∧ Writes codec db id db' := by
  cases document with
  | object members => exact insert_writes hlaw h
  | _ => cases h

/-- A visible row of this creation, whose document is finalised. -/
structure Finalized (db : Database) (id created : String) (row : SessionRow) : Prop where
  stored : db.sessions.get id = some row
  visible : row.deleted = false
  created : row.createdAt = created
  closed : ∀ m, row.metadata = .object m → documentState m = .closed

theorem requireFinalizedSession_spec {u : Unit}
    (h : requireFinalizedSession codec db id created = .ok u) :
    ∃ row, Finalized db id created row := by
  unfold requireFinalizedSession at h
  obtain ⟨⟨document, record⟩, hread, h⟩ := bind_eq_ok.mp h
  simp only at h
  split at h
  · cases h
  · rename_i hsame
    obtain ⟨hcreated, hclosed⟩ := not_or.mp hsame
    obtain ⟨row, hget, hdeleted, -, hrow, -, hstate⟩ := readRecord_spec hlaw hread
    refine ⟨row, hget, hdeleted, hrow.symm.trans (Decidable.not_not.mp hcreated), ?_⟩
    intro m hm
    exact (hstate m hm).trans (Decidable.not_not.mp hclosed)

end

theorem nextOf_spec {revision next : Nat} (h : nextOf revision = .ok next) :
    next = revision + 1 ∧ next < u64Limit := by
  unfold nextOf nextRevision at h
  by_cases hlt : revision + 1 < u64Limit
  · rw [if_pos hlt] at h
    cases h
    exact ⟨rfl, hlt⟩
  · rw [if_neg hlt] at h
    cases h

theorem organize_spec {revision : String} {choice : Option Choice} (hlaw : codec.Lawful)
    (hc : Consistent db) (h : organize codec db id created revision choice = .ok db') :
    ∃ row o, Finalized db id created row ∧ o.createdAt = created ∧ o.revision < u64Limit ∧
      bumpGeneration { db with
        organization := db.organization.set id o
        sessions := db.sessions.set id { row with state := o.choice.state } } = .ok db' := by
  unfold organize at h
  cases choice with
  | none => cases h
  | some choice =>
    simp only at h
    split at h
    · cases h
    · obtain ⟨u, hfinal, h⟩ := bind_eq_ok.mp h
      obtain ⟨row, hrow⟩ := requireFinalizedSession_spec hlaw hfinal
      split at h
      · cases h
      · obtain ⟨next, hnext, h⟩ := bind_eq_ok.mp h
        rw [hrow.stored] at h
        refine ⟨row, ⟨((db.organization.get id).map (fun o => o.createdAt)).getD created,
          choice, next⟩, hrow, ?_, (nextOf_spec hnext).2, h⟩
        -- A choice that is already stored is of the same creation.
        cases ho : db.organization.get id with
        | none => rfl
        | some o =>
          obtain ⟨row', hget, hcreated⟩ := hc.organization ho
          cases hrow.stored.symm.trans hget
          exact hcreated.symm.trans hrow.created

theorem beginDelete_spec {revision organizationRevision : String} (hlaw : codec.Lawful)
    (h : beginDelete codec db id created revision organizationRevision = .ok db') :
    ∃ row, Finalized db id created row ∧
      bumpGeneration { db with
        deletionJobs := db.deletionJobs.set id { createdAt := created, progress := 0 }
        sessions := db.sessions.set id { row with deleted := true }
        metadataSearch := db.metadataSearch.erase row.searchRowid } = .ok db' := by
  unfold beginDelete at h
  simp only at h
  split at h
  · cases h
  · obtain ⟨u, hfinal, h⟩ := bind_eq_ok.mp h
    obtain ⟨row, hrow⟩ := requireFinalizedSession_spec hlaw hfinal
    split at h
    · cases h
    · simp only [hrow.stored] at h
      exact ⟨row, hrow, h⟩

theorem deletionProgress_spec {progress : BitVec 8} {complete : Bool} (hc : Consistent db)
    (h : deletionProgress db id created progress complete = .ok db') :
    ∃ job row, db.deletionJobs.get id = some job ∧ job.createdAt = created ∧
      db.sessions.get id = some row ∧ row.deleted = true ∧ row.createdAt = created ∧
      job.progress &&& progress = job.progress ∧
      (complete = true ∧ db' = deleteSession db id created ∨
        complete = false ∧ db' = { db with
          deletionJobs := db.deletionJobs.set id { job with progress := progress } }) := by
  unfold deletionProgress at h
  split at h
  · cases h
  · rename_i job hfilter
    obtain ⟨hjob, hcreated⟩ := Option.filter_eq_some_iff.mp hfilter
    have hcreated : job.createdAt = created := by simpa using hcreated
    obtain ⟨row, hget, hdeleted, hrow⟩ := hc.jobs hjob
    split at h
    · cases h
    · rename_i hbits
      refine ⟨job, row, hjob, hcreated, hget, hdeleted, hrow.trans hcreated,
        Decidable.not_not.mp hbits, ?_⟩
      cases complete with
      | false =>
        cases h
        exact .inr ⟨rfl, rfl⟩
      | true =>
        have htombstone : (db.sessions.get id).filter
            (fun row => row.createdAt = created && row.deleted = true) = some row := by
          rw [hget, Option.filter_some, if_pos]
          simp [hrow.trans hcreated, hdeleted]
        rw [if_pos rfl, htombstone] at h
        cases h
        exact .inl ⟨rfl, rfl⟩

/-! ## Every operation keeps the invariant -/

theorem organized_consistent {o : OrganizationRow} (h : Consistent db)
    (hrow : Finalized db id created row) (ho : o.createdAt = created) : Consistent { db with
      organization := db.organization.set id o
      sessions := db.sessions.set id { row with state := o.choice.state } } := by
  have hold := h.rows hrow.stored
  obtain ⟨-, hsearch, hnojob⟩ := hold.visible hrow.visible
  refine ⟨h.single, ?_, ?_, ?_, ?_, ?_⟩
  · intro j row' hget
    rw [get_set] at hget
    split at hget
    · rename_i hj
      subst hj
      cases hget
      obtain ⟨m, hm⟩ := hold.document
      refine ⟨⟨m, hm.object, hm.id, hm.createdAt, hm.revision⟩, hold.key, ?_, ?_⟩
      · intro _
        refine ⟨?_, hsearch, hnojob⟩
        intro m' hm'
        -- The state is the choice, and the document is closed.
        show o.choice.state = expectedState _ id m'
        rw [expectedState, get_set, if_pos rfl, hrow.closed m' hm'.object]
        cases hchoice : o.choice with
        | closed => simp [hchoice, Choice.state, RowState.ofRecorded]
        | archived => simp [hchoice, Choice.state]
      · intro hdel
        exact absurd (hrow.visible.symm.trans hdel) Bool.false_ne_true
    · rename_i hj
      have hother := h.rows hget
      refine ⟨hother.document, hother.key, ?_, hother.tombstone⟩
      intro hdel
      refine ⟨?_, (hother.visible hdel).2⟩
      intro m hm
      refine ((hother.visible hdel).1 m hm).trans ?_
      simp only [expectedState, get_set, if_neg hj]
  · intro j j' row₁ row₂ hget hget' heq
    rw [get_set] at hget hget'
    split at hget <;> split at hget'
    · rename_i hj hj'
      exact hj.symm.trans hj'
    · rename_i hj hj'
      cases hget
      exact absurd (h.keys hrow.stored hget' heq) hj'
    · rename_i hj hj'
      cases hget'
      exact absurd (h.keys hrow.stored hget heq.symm) hj
    · exact h.keys hget hget' heq
  · intro key entry hentry
    obtain ⟨j, row', hget, hdeleted, hkey⟩ := h.index hentry
    by_cases hj : id = j
    · subst hj
      cases hrow.stored.symm.trans hget
      exact ⟨id, _, get_set.trans (if_pos rfl), hdeleted, hkey⟩
    · exact ⟨j, row', get_set.trans ((if_neg hj).trans hget), hdeleted, hkey⟩
  · intro j o' ho'
    rw [get_set] at ho'
    split at ho'
    · rename_i hj
      subst hj
      cases ho'
      exact ⟨_, get_set.trans (if_pos rfl), hrow.created.trans ho.symm⟩
    · rename_i hj
      obtain ⟨row', hget, hcreated⟩ := h.organization ho'
      exact ⟨row', get_set.trans ((if_neg hj).trans hget), hcreated⟩
  · intro j job hjob
    obtain ⟨row', hget, hdeleted, hcreated⟩ := h.jobs hjob
    by_cases hj : id = j
    · subst hj
      rw [hnojob] at hjob
      cases hjob
    · exact ⟨row', get_set.trans ((if_neg hj).trans hget), hdeleted, hcreated⟩

theorem begun_consistent (h : Consistent db) (hrow : Finalized db id created row) :
    Consistent { db with
      deletionJobs := db.deletionJobs.set id { createdAt := created, progress := 0 }
      sessions := db.sessions.set id { row with deleted := true }
      metadataSearch := db.metadataSearch.erase row.searchRowid } := by
  have hold := h.rows hrow.stored
  refine ⟨nodup_keys_erase h.single, ?_, ?_, ?_, ?_, ?_⟩
  · intro j row' hget
    rw [get_set] at hget
    split at hget
    · rename_i hj
      subst hj
      cases hget
      obtain ⟨m, hm⟩ := hold.document
      refine ⟨⟨m, hm.object, hm.id, hm.createdAt, hm.revision⟩, hold.key,
        fun hdel => absurd hdel.symm Bool.false_ne_true, fun _ => ⟨?_, ?_, ?_⟩⟩
      · exact fun m' hm' => hrow.closed m' hm'.object
      · exact get_erase.trans (if_pos rfl)
      · exact ⟨_, get_set.trans (if_pos rfl), hrow.created.symm⟩
    · rename_i hj
      have hother := h.rows hget
      have hkey : row.searchRowid ≠ row'.searchRowid := fun heq =>
        hj (h.keys hrow.stored hget heq)
      have hsearch : (db.metadataSearch.erase row.searchRowid).get row'.searchRowid =
          db.metadataSearch.get row'.searchRowid := get_erase.trans (if_neg hkey)
      have hjobs : (db.deletionJobs.set id { createdAt := created, progress := 0 }).get j =
          db.deletionJobs.get j := get_set.trans (if_neg hj)
      refine ⟨hother.document, hother.key, ?_, ?_⟩
      · intro hdel
        obtain ⟨hstate, hentry, hnojob⟩ := hother.visible hdel
        exact ⟨hstate, hsearch.trans hentry, hjobs.trans hnojob⟩
      · intro hdel
        obtain ⟨hclosed, hentry, job, hjob, hcreated⟩ := hother.tombstone hdel
        exact ⟨hclosed, hsearch.trans hentry, job, hjobs.trans hjob, hcreated⟩
  · intro j j' row₁ row₂ hget hget' heq
    rw [get_set] at hget hget'
    split at hget <;> split at hget'
    · rename_i hj hj'
      exact hj.symm.trans hj'
    · rename_i hj hj'
      cases hget
      exact absurd (h.keys hrow.stored hget' heq) hj'
    · rename_i hj hj'
      cases hget'
      exact absurd (h.keys hrow.stored hget heq.symm) hj
    · exact h.keys hget hget' heq
  · intro key entry hentry
    rw [get_erase] at hentry
    split at hentry
    · cases hentry
    · rename_i hkey
      obtain ⟨j, row', hget, hdeleted, hrow'⟩ := h.index hentry
      have hj : id ≠ j := by
        intro heq
        subst heq
        cases hrow.stored.symm.trans hget
        exact hkey hrow'
      exact ⟨j, row', get_set.trans ((if_neg hj).trans hget), hdeleted, hrow'⟩
  · intro j o ho
    obtain ⟨row', hget, hcreated⟩ := h.organization ho
    by_cases hj : id = j
    · subst hj
      cases hrow.stored.symm.trans hget
      exact ⟨_, get_set.trans (if_pos rfl), hcreated⟩
    · exact ⟨row', get_set.trans ((if_neg hj).trans hget), hcreated⟩
  · intro j job hjob
    rw [get_set] at hjob
    split at hjob
    · rename_i hj
      subst hj
      cases hjob
      exact ⟨_, get_set.trans (if_pos rfl), rfl, hrow.created⟩
    · rename_i hj
      obtain ⟨row', hget, hdeleted, hcreated⟩ := h.jobs hjob
      exact ⟨row', get_set.trans ((if_neg hj).trans hget), hdeleted, hcreated⟩

theorem progressed_consistent {job : DeletionJob} {progress : BitVec 8} (h : Consistent db)
    (hjob : db.deletionJobs.get id = some job) :
    Consistent { db with
      deletionJobs := db.deletionJobs.set id { job with progress := progress } } := by
  refine ⟨h.single, ?_, h.keys, h.index, h.organization, ?_⟩
  · intro j row hget
    have hold := h.rows hget
    refine ⟨hold.document, hold.key, ?_, ?_⟩
    · intro hdel
      obtain ⟨hstate, hentry, hnojob⟩ := hold.visible hdel
      have hj : id ≠ j := by
        intro heq
        subst heq
        rw [hjob] at hnojob
        cases hnojob
      exact ⟨hstate, hentry, get_set.trans ((if_neg hj).trans hnojob)⟩
    · intro hdel
      obtain ⟨hclosed, hentry, job', hjob', hcreated⟩ := hold.tombstone hdel
      refine ⟨hclosed, hentry, ?_⟩
      by_cases hj : id = j
      · subst hj
        cases hjob.symm.trans hjob'
        exact ⟨_, get_set.trans (if_pos rfl), hcreated⟩
      · exact ⟨job', get_set.trans ((if_neg hj).trans hjob'), hcreated⟩
  · intro j job' hjob'
    rw [get_set] at hjob'
    split at hjob'
    · rename_i hj
      subst hj
      cases hjob'
      obtain ⟨row, hget, hdeleted, hcreated⟩ := h.jobs hjob
      exact ⟨row, hget, hdeleted, hcreated⟩
    · exact h.jobs hjob'

theorem deleteSession_get (h : Consistent db) (hget : db.sessions.get id = some row)
    (hcreated : row.createdAt = created) : (∀ j, (deleteSession db id created).sessions.get j =
      if id = j then none else db.sessions.get j) ∧
    (∀ j, (deleteSession db id created).organization.get j =
      if id = j then none else db.organization.get j) ∧
    (∀ j, (deleteSession db id created).deletionJobs.get j =
      if id = j then none else db.deletionJobs.get j) := by
  refine ⟨fun j => get_erase, ?_, ?_⟩
  · intro j
    unfold deleteSession
    dsimp only
    split
    · exact get_erase
    · rename_i hno
      split
      · rename_i hj
        subst hj
        cases ho : db.organization.get id with
        | none => rfl
        | some o =>
          obtain ⟨row', hget', ho'⟩ := h.organization ho
          cases hget.symm.trans hget'
          exact absurd (by simp [ho, ← ho', hcreated]) hno
      · rfl
  · intro j
    unfold deleteSession
    dsimp only
    split
    · exact get_erase
    · rename_i hno
      split
      · rename_i hj
        subst hj
        cases hjob : db.deletionJobs.get id with
        | none => rfl
        | some job =>
          obtain ⟨row', hget', -, hjob'⟩ := h.jobs hjob
          cases hget.symm.trans hget'
          exact absurd (by simp [hjob, ← hjob', hcreated]) hno
      · rfl

theorem completed_consistent (h : Consistent db) (hget : db.sessions.get id = some row)
    (hdeleted : row.deleted = true) (hcreated : row.createdAt = created) :
    Consistent (deleteSession db id created) := by
  obtain ⟨hsessions, horganization, hjobs⟩ := deleteSession_get h hget hcreated
  -- What is left is what was there of the other sessions.
  have hother : ∀ {j row'}, (deleteSession db id created).sessions.get j = some row' →
      id ≠ j ∧ db.sessions.get j = some row' := by
    intro j row' hget'
    rw [hsessions] at hget'
    split at hget'
    · cases hget'
    · rename_i hj
      exact ⟨hj, hget'⟩
  refine ⟨h.single, ?_, ?_, ?_, ?_, ?_⟩
  · intro j row' hget'
    obtain ⟨hj, hget'⟩ := hother hget'
    have hold := h.rows hget'
    have horg := (horganization j).trans (if_neg hj)
    have hjob := (hjobs j).trans (if_neg hj)
    refine ⟨hold.document, hold.key, ?_, ?_⟩
    · intro hdel
      obtain ⟨hstate, hentry, hnojob⟩ := hold.visible hdel
      refine ⟨?_, hentry, hjob.trans hnojob⟩
      intro m hm
      refine (hstate m hm).trans ?_
      rw [expectedState, expectedState, horg]
    · intro hdel
      obtain ⟨hclosed, hentry, job, hjob', hrow⟩ := hold.tombstone hdel
      exact ⟨hclosed, hentry, job, hjob.trans hjob', hrow⟩
  · intro j j' row₁ row₂ hget₁ hget₂ heq
    exact h.keys (hother hget₁).2 (hother hget₂).2 heq
  · intro key entry hentry
    obtain ⟨j, row', hget', hvisible, hkey⟩ := h.index hentry
    have hj : id ≠ j := by
      intro heq
      subst heq
      cases hget.symm.trans hget'
      rw [hdeleted] at hvisible
      cases hvisible
    exact ⟨j, row', (hsessions j).trans ((if_neg hj).trans hget'), hvisible, hkey⟩
  · intro j o ho
    rw [horganization] at ho
    split at ho
    · cases ho
    · rename_i hj
      obtain ⟨row', hget', hrow⟩ := h.organization ho
      exact ⟨row', (hsessions j).trans ((if_neg hj).trans hget'), hrow⟩
  · intro j job hjob
    rw [hjobs] at hjob
    split at hjob
    · cases hjob
    · rename_i hj
      obtain ⟨row', hget', hdel, hrow⟩ := h.jobs hjob
      exact ⟨row', (hsessions j).trans ((if_neg hj).trans hget'), hdel, hrow⟩

end Orkworksd.SessionStore
