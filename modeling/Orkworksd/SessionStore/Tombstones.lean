import Orkworksd.SessionStore.Consistency

/- What may happen to a deleted session.

   `call_effect` says once what a call that commits can do to the tables; `Entombed` is what
   a tombstone keeps until its job completes, and `Completes` is the step that ends it. The
   rules of `Lib.Run` carry both along a run.

   Main result: `tables_stay_consistent`. -/
namespace Orkworksd.SessionStore
open Lib Metadata OrderedMap

variable {codec : Codec} {db db' : Database} {call : Call} {id : String} {row : SessionRow}

/-! ## What a call can do -/

inductive Effect (codec : Codec) (db : Database) (call : Call) (db' : Database) : Prop where
  | same (hsame : db' = db)
  | wrote (id : String) (hw : Writes codec db id db')
  | organized (id created : String) (row : SessionRow) (o : OrganizationRow)
      (hrow : Finalized db id created row) (ho : o.createdAt = created)
      (hbump : bumpGeneration { db with
        organization := db.organization.set id o
        sessions := db.sessions.set id { row with state := o.choice.state } } = .ok db')
  | begun (id created : String) (row : SessionRow) (hrow : Finalized db id created row)
      (hbump : bumpGeneration { db with
        deletionJobs := db.deletionJobs.set id { createdAt := created, progress := 0 }
        sessions := db.sessions.set id { row with deleted := true }
        metadataSearch := db.metadataSearch.erase row.searchRowid } = .ok db')
  | progressed (id : String) (job : DeletionJob) (progress : BitVec 8)
      (hjob : db.deletionJobs.get id = some job)
      (hbits : job.progress &&& progress = job.progress)
      (hdb : db' = { db with
        deletionJobs := db.deletionJobs.set id { job with progress := progress } })
  | completed (id created : String) (row : SessionRow) (progress : BitVec 8)
      (hcall : call = .deletionProgress id created progress true)
      (hget : db.sessions.get id = some row) (hdeleted : row.deleted = true)
      (hcreated : row.createdAt = created) (hdb : db' = deleteSession db id created)

theorem call_effect (hlaw : codec.Lawful) (hc : Consistent db)
    (h : call.run codec db = .ok db') : Effect codec db call db' := by
  cases call with
  | insert document =>
    obtain ⟨id, -, hw⟩ := insert_writes hlaw h
    exact .wrote id hw
  | createSession document =>
    obtain ⟨id, -, hw⟩ := createSession_writes hlaw h
    exact .wrote id hw
  | patch id envelope surroundings now =>
    obtain ⟨row, -, -, hw⟩ := patch_writes hlaw h
    exact .wrote id hw
  | mutateInternal env id created expected proof intent ready now =>
    obtain ⟨row, -, -, hsame | hw⟩ := mutateInternal_writes hlaw h
    · exact .same hsame
    · exact .wrote id hw
  | organize id created revision choice =>
    obtain ⟨row, o, hrow, ho, -, hbump⟩ := organize_spec hlaw hc h
    exact .organized id created row o hrow ho hbump
  | beginDelete id created revision organizationRevision =>
    obtain ⟨row, hrow, hbump⟩ := beginDelete_spec hlaw h
    exact .begun id created row hrow hbump
  | deletionProgress id created progress complete =>
    obtain ⟨job, row, hjob, hjobCreated, hget, hdeleted, hcreated, hbits, hdone | hkept⟩ :=
      deletionProgress_spec hc h
    · obtain ⟨rfl, hdb⟩ := hdone
      exact .completed id created row progress rfl hget hdeleted hcreated hdb
    · exact .progressed id job progress hjob hbits hkept.2

theorem Effect.consistent (h : Effect codec db call db') (hc : Consistent db) :
    Consistent db' := by
  cases h with
  | same hsame => exact hsame ▸ hc
  | wrote id hw => exact hw.consistent hc
  | organized id created row o hrow ho hbump => exact (organized_consistent hc hrow ho).bump hbump
  | begun id created row hrow hbump => exact (begun_consistent hc hrow).bump hbump
  | progressed id job progress hjob hbits hdb => exact hdb ▸ progressed_consistent hc hjob
  | completed id created row progress hcall hget hdeleted hcreated hdb =>
    exact hdb ▸ completed_consistent hc hget hdeleted hcreated

theorem Writes.frame (hw : Writes codec db id db') :
    db'.organization = db.organization ∧ db'.deletionJobs = db.deletionJobs ∧
      (∃ row, db'.sessions.get id = some row) ∧
      ∀ j, id ≠ j → db'.sessions.get j = db.sessions.get j := by
  obtain ⟨document, record, stored, -, rfl, -, hpersist, hbump⟩ := hw.written
  obtain ⟨-, hstored⟩ := persist_eq hpersist
  have hframe : ∀ g, db' = { stored with generation := g } →
      db'.organization = db.organization ∧ db'.deletionJobs = db.deletionJobs ∧
      (∃ row, db'.sessions.get record.metadata.id = some row) ∧
      ∀ j, record.metadata.id ≠ j → db'.sessions.get j = db.sessions.get j := by
    intro g hdb
    rw [hdb, hstored]
    exact ⟨rfl, rfl, ⟨_, get_set.trans (if_pos rfl)⟩, fun j hj => get_set.trans (if_neg hj)⟩
  rcases hbump with hbump | hsame
  · exact hframe (stored.generation + 1) (bumpGeneration_eq hbump)
  · exact hframe stored.generation hsame

theorem Writes.visible (hw : Writes codec db id db') (hget : db.sessions.get id = some row) :
    row.deleted = false := by
  obtain ⟨document, record, stored, -, -, hrow, -, -⟩ := hw.written
  exact (hrow row hget).1

/-! ## Tombstones -/

/-- What a tombstone keeps: its row as it is, and the bits of its job. -/
structure Entombed (id : String) (row : SessionRow) (job : DeletionJob) (db : Database) :
    Prop where
  stored : db.sessions.get id = some row
  job : ∃ job', db.deletionJobs.get id = some job' ∧ job'.createdAt = job.createdAt ∧
    job.progress &&& job'.progress = job.progress

/-- The step that completes the deletion of this session and leaves none of its rows. -/
def Completes (id : String) (_ : List Call) (db : Database) (call : Call) (db' : Database) :
    Prop :=
  ∃ row progress, db.sessions.get id = some row ∧ row.deleted = true ∧
    call = .deletionProgress id row.createdAt progress true ∧
    db'.sessions.get id = none ∧ db'.organization.get id = none ∧ db'.deletionJobs.get id = none

theorem completes_of_deleted {created : String} {progress : BitVec 8} (hc : Consistent db)
    (hcall : call = .deletionProgress id created progress true)
    (hget : db.sessions.get id = some row) (hdeleted : row.deleted = true)
    (hcreated : row.createdAt = created) (past : List Call) :
    Completes id past db call (deleteSession db id created) := by
  obtain ⟨hsessions, horganization, hjobs⟩ := deleteSession_get hc hget hcreated
  refine ⟨row, progress, hget, hdeleted, hcreated.symm ▸ hcall, ?_, ?_, ?_⟩
  · exact (hsessions id).trans (if_pos rfl)
  · exact (horganization id).trans (if_pos rfl)
  · exact (hjobs id).trans (if_pos rfl)

theorem Effect.row_stays (h : Effect codec db call db') (hc : Consistent db)
    (hget : db.sessions.get id = some row) (past : List Call) :
    (∃ row', db'.sessions.get id = some row') ∨ Completes id past db call db' := by
  have hset : ∀ {j} {row₁ : SessionRow},
      ∃ row', (db.sessions.set j row₁).get id = some row' := by
    intro j row₁
    rw [get_set]
    split
    · exact ⟨row₁, rfl⟩
    · exact ⟨row, hget⟩
  cases h with
  | same hsame => exact .inl ⟨row, hsame ▸ hget⟩
  | wrote j hw =>
    obtain ⟨-, -, hown, hother⟩ := hw.frame
    by_cases hj : j = id
    · exact .inl (hj ▸ hown)
    · exact .inl ⟨row, (hother id hj).trans hget⟩
  | organized j created row₁ o hrow ho hbump =>
    rw [bumpGeneration_eq hbump]
    exact .inl hset
  | begun j created row₁ hrow hbump =>
    rw [bumpGeneration_eq hbump]
    exact .inl hset
  | progressed j job progress hjob hbits hdb =>
    rw [hdb]
    exact .inl ⟨row, hget⟩
  | completed j created row₁ progress hcall hget₁ hdeleted hcreated hdb =>
    subst hdb
    by_cases hj : j = id
    · subst hj
      exact .inr (completes_of_deleted hc hcall hget₁ hdeleted hcreated past)
    · refine .inl ⟨row, ?_⟩
      exact ((deleteSession_get hc hget₁ hcreated).1 id).trans ((if_neg hj).trans hget)

theorem and_absorb {a b c : BitVec 8} (hab : a &&& b = a) (hbc : b &&& c = b) : a &&& c = a := by
  calc a &&& c = (a &&& b) &&& c := by rw [hab]
    _ = a &&& (b &&& c) := BitVec.and_assoc a b c
    _ = a &&& b := by rw [hbc]
    _ = a := hab

variable {job : DeletionJob}

theorem Effect.entombed (h : Effect codec db call db') (hc : Consistent db)
    (hdeleted : row.deleted = true) (ht : Entombed id row job db) (past : List Call) :
    Entombed id row job db' ∨ Completes id past db call db' := by
  obtain ⟨job₀, hjob₀, hcreated₀, hbits₀⟩ := ht.job
  -- A session that an operation writes is visible, so it is another one.
  have hvisible : ∀ {j row₁}, db.sessions.get j = some row₁ → row₁.deleted = false → j ≠ id := by
    intro j row₁ hget hvis heq
    subst heq
    cases ht.stored.symm.trans hget
    rw [hdeleted] at hvis
    cases hvis
  cases h with
  | same hsame => exact .inl (hsame ▸ ht)
  | wrote j hw =>
    obtain ⟨-, hjobs, -, hother⟩ := hw.frame
    have hj : j ≠ id := by
      intro heq
      subst heq
      exact absurd (hdeleted.symm.trans (hw.visible ht.stored)) (by decide)
    refine .inl ⟨(hother id hj).trans ht.stored, job₀, ?_, hcreated₀, hbits₀⟩
    rw [hjobs]
    exact hjob₀
  | organized j created row₁ o hrow ho hbump =>
    have hj := hvisible hrow.stored hrow.visible
    rw [bumpGeneration_eq hbump]
    exact .inl ⟨get_set.trans ((if_neg hj).trans ht.stored), job₀, hjob₀, hcreated₀, hbits₀⟩
  | begun j created row₁ hrow hbump =>
    have hj := hvisible hrow.stored hrow.visible
    rw [bumpGeneration_eq hbump]
    exact .inl ⟨get_set.trans ((if_neg hj).trans ht.stored),
      job₀, get_set.trans ((if_neg hj).trans hjob₀), hcreated₀, hbits₀⟩
  | progressed j job₁ progress hjob hbits hdb =>
    rw [hdb]
    refine .inl ⟨ht.stored, ?_⟩
    by_cases hj : j = id
    · subst hj
      cases hjob.symm.trans hjob₀
      exact ⟨_, get_set.trans (if_pos rfl), hcreated₀, and_absorb hbits₀ hbits⟩
    · exact ⟨job₀, get_set.trans ((if_neg hj).trans hjob₀), hcreated₀, hbits₀⟩
  | completed j created row₁ progress hcall hget₁ hdeleted₁ hcreated hdb =>
    subst hdb
    by_cases hj : j = id
    · subst hj
      exact .inr (completes_of_deleted hc hcall hget₁ hdeleted₁ hcreated past)
    · obtain ⟨hsessions, -, hjobs⟩ := deleteSession_get hc hget₁ hcreated
      exact .inl ⟨(hsessions id).trans ((if_neg hj).trans ht.stored),
        job₀, (hjobs id).trans ((if_neg hj).trans hjob₀), hcreated₀, hbits₀⟩

/-! ## Calls that name a deleted session -/

/-- The session that a call would create. -/
def Call.creates (codec : Codec) : Call → Option String
  | .insert document => (canonical codec document).toOption.map (fun read => read.2.metadata.id)
  | .createSession (.object members) =>
    (canonical codec
      (.object (OrderedMap.set members "metadataRevision" (.string "1")))).toOption.map
        (fun read => read.2.metadata.id)
  | _ => none

/-- The session that a call would create or change; the steps of a deletion are left out. -/
def Call.edits (codec : Codec) : Call → Option String
  | .patch id _ _ _ => some id
  | .mutateInternal _ id _ _ _ _ _ _ => some id
  | .organize id _ _ _ => some id
  | .beginDelete id _ _ _ => some id
  | call => call.creates codec

theorem insert_absent {document : Json}
    (hid : (canonical codec document).toOption.map (fun read => read.2.metadata.id) = some id)
    (h : insert codec db document = .ok db') : db.sessions.get id = none := by
  unfold insert at h
  obtain ⟨⟨document', record⟩, hcanonical, h⟩ := bind_eq_ok.mp h
  rw [hcanonical] at hid
  cases hid
  simp only at h
  split at h
  · cases h
  · rename_i hnew
    simpa using hnew

theorem creates_absent (hid : call.creates codec = some id) (h : call.run codec db = .ok db') :
    db.sessions.get id = none := by
  cases call with
  | insert document => exact insert_absent hid h
  | createSession document =>
    cases document with
    | object members => exact insert_absent hid h
    | _ => cases hid
  | _ => cases hid

theorem Consistent.absent (hc : Consistent db) (hget : db.sessions.get id = none) :
    db.organization.get id = none ∧ db.deletionJobs.get id = none := by
  constructor
  · cases ho : db.organization.get id with
    | none => rfl
    | some o =>
      obtain ⟨row, hrow, -⟩ := hc.organization ho
      rw [hget] at hrow
      cases hrow
  · cases hjob : db.deletionJobs.get id with
    | none => rfl
    | some job =>
      obtain ⟨row, hrow, -⟩ := hc.jobs hjob
      rw [hget] at hrow
      cases hrow

theorem creates_writes (hlaw : codec.Lawful) (hid : call.creates codec = some id)
    (h : call.run codec db = .ok db') : ∃ j, Writes codec db j db' := by
  cases call with
  | insert document =>
    obtain ⟨j, -, hw⟩ := insert_writes hlaw h
    exact ⟨j, hw⟩
  | createSession document =>
    obtain ⟨j, -, hw⟩ := createSession_writes hlaw h
    exact ⟨j, hw⟩
  | _ => cases hid

theorem edits_visible (hlaw : codec.Lawful) (hc : Consistent db)
    (hid : call.edits codec = some id) (h : call.run codec db = .ok db') :
    ∀ row, db.sessions.get id = some row → row.deleted = false := by
  have hfound : ∀ {row₁}, db.sessions.get id = some row₁ → row₁.deleted = false →
      ∀ row, db.sessions.get id = some row → row.deleted = false := by
    intro row₁ hget hvis row hrow
    cases hget.symm.trans hrow
    exact hvis
  cases call with
  | insert document =>
    have hcreates : Call.creates codec (.insert document) = some id := hid
    intro row hget
    rw [creates_absent hcreates h] at hget
    cases hget
  | createSession document =>
    have hcreates : Call.creates codec (.createSession document) = some id := hid
    intro row hget
    rw [creates_absent hcreates h] at hget
    cases hget
  | patch j envelope surroundings now =>
    cases hid
    obtain ⟨row, hget, hvis, -⟩ := patch_writes hlaw h
    exact hfound hget hvis
  | mutateInternal env j created expected proof intent ready now =>
    cases hid
    obtain ⟨row, hget, hvis, -⟩ := mutateInternal_writes hlaw h
    exact hfound hget hvis
  | organize j created revision choice =>
    cases hid
    obtain ⟨row, o, hrow, -⟩ := organize_spec hlaw hc h
    exact hfound hrow.stored hrow.visible
  | beginDelete j created revision organizationRevision =>
    cases hid
    obtain ⟨row, hrow, -⟩ := beginDelete_spec hlaw h
    exact hfound hrow.stored hrow.visible
  | deletionProgress j created progress complete => cases hid

/-- The row that a query of the history finds for a session (`WHERE s.deleted=0`). -/
def historyRow (db : Database) (id : String) : Option SessionRow :=
  (db.sessions.get id).filter (fun row => row.deleted = false)

theorem reads_nothing (hget : db.sessions.get id = some row) (hdeleted : row.deleted = true) :
    get codec db id = .ok none ∧ organizationState codec db id = .ok none ∧
      historyRow db id = none := by
  have hfilter : (db.sessions.get id).filter (fun row => row.deleted = false) = none := by
    rw [hget, Option.filter_some, if_neg]
    simp [hdeleted]
  have hread : readDocument codec db id false = .ok none := by
    unfold readDocument
    simp only [hfilter]
  refine ⟨hread, ?_, hfilter⟩
  unfold organizationState
  rw [hread]
  rfl

/-! ## Runs -/

/-- One call and the tables it leaves. -/
def Step (codec : Codec) (db : Database) (call : Call) (db' : Database) : Prop :=
  call.after codec db = db'

section
variable (hlaw : codec.Lawful)
include hlaw

section
variable (hc : Consistent db)
include hc

theorem step_effect (h : Step codec db call db') :
    Effect codec db call db' := by
  unfold Step Call.after at h
  cases hrun : call.run codec db with
  | ok db₁ =>
    simp only [hrun] at h
    exact call_effect hlaw hc (h ▸ hrun)
  | error e =>
    simp only [hrun] at h
    exact .same h.symm

variable {calls : List Call}

theorem run_consistent
    (hrun : Run (Step codec) db calls db') : Consistent db' :=
  hrun.invariant Consistent hc (fun hs hstep => (step_effect hlaw hs hstep).consistent hs)

/-- The deletion of this session was completed in the run. -/
def Completed (codec : Codec) (db : Database) (id : String) (calls : List Call) : Prop :=
  Occurred (Step codec) db (fun _ => False) (Completes id) calls

theorem run_row_stays
    (hget : db.sessions.get id = some row) (hrun : Run (Step codec) db calls db') :
    (∃ row', db'.sessions.get id = some row') ∨ Completed codec db id calls := by
  refine hrun.history
    (fun calls db' => (∃ row', db'.sessions.get id = some row') ∨ Completed codec db id calls)
    (.inl ⟨row, hget⟩) ?_
  intro calls s call t hr hinv hstep
  rcases hinv with ⟨row', hrow'⟩ | hdone
  · have hs := run_consistent hlaw hc hr
    rcases (step_effect hlaw hs hstep).row_stays hs hrow' calls with hstays | hcompletes
    · exact .inl hstays
    · exact .inr (.here hr hstep hcompletes)
  · exact .inr (hdone.later fun hfalse => hfalse)

theorem run_entombed (hdeleted : row.deleted = true)
    (ht : Entombed id row job db) (hrun : Run (Step codec) db calls db') :
    Entombed id row job db' ∨ Completed codec db id calls := by
  refine hrun.history
    (fun calls db' => Entombed id row job db' ∨ Completed codec db id calls) (.inl ht) ?_
  intro calls s call t hr hinv hstep
  rcases hinv with ht | hdone
  · have hs := run_consistent hlaw hc hr
    rcases (step_effect hlaw hs hstep).entombed hs hdeleted ht calls with hkept | hcompletes
    · exact .inl hkept
    · exact .inr (.here hr hstep hcompletes)
  · exact .inr (hdone.later fun hfalse => hfalse)

theorem created_fresh
    (hid : call.creates codec = some id) (h : call.run codec db = .ok db') :
    db'.organization.get id = none ∧ db'.deletionJobs.get id = none := by
  obtain ⟨j, hw⟩ := creates_writes hlaw hid h
  obtain ⟨horganization, hjobs, -⟩ := hw.frame
  rw [horganization, hjobs]
  exact hc.absent (creates_absent hid h)

/-- What is true of a session that has been deleted. -/
structure DeletedSession (codec : Codec) (db : Database) (id : String) (row : SessionRow) :
    Prop where
  reads : get codec db id = .ok none ∧ organizationState codec db id = .ok none ∧
    historyRow db id = none
  writes : ∀ call, Call.edits codec call = some id → ∃ e, call.run codec db = .error e
  kept : ∃ job, db.deletionJobs.get id = some job ∧ ∀ calls db', Run (Step codec) db calls db' →
    Entombed id row job db' ∨ Completed codec db id calls

theorem deletedSession
    (hget : db.sessions.get id = some row) (hdeleted : row.deleted = true) :
    DeletedSession codec db id row := by
  refine ⟨reads_nothing hget hdeleted, ?_, ?_⟩
  · intro call hid
    cases hrun : call.run codec db with
    | error e => exact ⟨e, rfl⟩
    | ok db' =>
      have hvisible := edits_visible hlaw hc hid hrun row hget
      rw [hdeleted] at hvisible
      cases hvisible
  · obtain ⟨-, -, job, hjob, -⟩ := (hc.rows hget).tombstone hdeleted
    refine ⟨job, hjob, fun calls db' hrun => ?_⟩
    exact run_entombed hlaw hc hdeleted ⟨hget, job, hjob, rfl, BitVec.and_self⟩ hrun

end

end

/-- The tables stay consistent over every run. A deleted session is read and written by
nothing but its own deletion, keeps its row and the bits of its job until that completes, and
its id is created again only after that, with nothing inherited. A call that fails changes
nothing. -/
theorem tables_stay_consistent {codec : Codec} (hlaw : codec.Lawful) {calls : List Call}
    {db : Database} (hrun : Run (Step codec) .create calls db) :
    Consistent db ∧
    (∀ id row, db.sessions.get id = some row → row.deleted = true →
      DeletedSession codec db id row) ∧
    (∀ id row later db' call db'', db.sessions.get id = some row →
      Run (Step codec) db later db' → Call.creates codec call = some id →
      call.run codec db' = .ok db'' →
      Completed codec db id later ∧ db''.organization.get id = none ∧
        db''.deletionJobs.get id = none) ∧
    ∀ call e, Call.run codec db call = .error e → call.after codec db = db := by
  have hc := run_consistent hlaw create_consistent hrun
  refine ⟨hc, fun id row hget hdeleted => deletedSession hlaw hc hget hdeleted, ?_, ?_⟩
  · intro id row later db' call db'' hget hlater hid hcreated
    refine ⟨?_, created_fresh hlaw (run_consistent hlaw hc hlater) hid hcreated⟩
    rcases run_row_stays hlaw hc hget hlater with ⟨row', hrow'⟩ | hdone
    · rw [creates_absent hid hcreated] at hrow'
      cases hrow'
    · exact hdone
  · intro call e herror
    rw [Call.after, herror]

/-! ## A closed session -/

mutual
/-- The length of the text of a value whose strings need no escapes. -/
def plainSize : Json → Nat
  | .null => 4
  | .bool value => if value then 4 else 5
  | .number text => text.utf8ByteSize
  | .string text => text.utf8ByteSize + 2
  | .array items => 2 + plainItems items
  | .object members => 2 + plainMembers members

def plainItems : List Json → Nat
  | [] => 0
  | item :: items => plainSize item + 1 + plainItems items

def plainMembers : List (String × Json) → Nat
  | [] => 0
  | (key, value) :: members => key.utf8ByteSize + 4 + plainSize value + plainMembers members
end

def confidenceValue (x : F64) : Json := .number (if x = .one then "1.0" else "0.0")

def snapshotValue (s : ObservedStatusSnapshotMetadata) : Json :=
  .object [("value", (s.value.map Json.string).getD .null), ("source", .string s.source),
    ("confidence", (s.confidence.map confidenceValue).getD .null),
    ("observedAt", (s.observedAt.map Json.string).getD .null)]

/-- The members of a record that has no plan, binding, resume memory or evidence. A member
without a value is not written. -/
def sampleFields (r : RevisionedSession) : List (String × Option Json) :=
  let m := r.metadata
  let nullable := fun (text : Option String) => some ((text.map Json.string).getD .null)
  [("id", some (.string m.id)), ("createdAt", some (.string m.createdAt)),
    ("metadataRevision", some (.string (toString r.revision))),
    ("status", some (.string m.status)), ("lifecycle", some (.string m.lifecycle)),
    ("lifecyclePhase", some (.string m.lifecyclePhase)),
    ("label", some (.string m.label)), ("labelSource", some (.string "legacy")),
    ("labelContextRefined", some (.bool m.labelContextRefined)),
    ("workspace", some (.string m.workspace)), ("task", some (.string m.task)),
    ("harnessId", some (.string m.harness)), ("modelId", some (.string m.model)),
    ("cwd", some (.string m.cwd)), ("workPhase", some (.string m.workPhase)),
    ("connectivity", some (.string m.connectivity)),
    ("terminalOutcome", m.terminalOutcome.map Json.string),
    ("observedStatus", nullable m.observedStatus),
    ("finalObservedStatusSnapshot", m.finalObservedStatusSnapshot.map snapshotValue),
    ("summary", nullable m.summary), ("nextAction", nullable m.nextAction),
    ("needsUserInput", some ((m.needsUserInput.map Json.bool).getD .null)),
    ("detectedQuestion", nullable m.detectedQuestion), ("suggestedOptions", some .null),
    ("blockerDescription", nullable m.blockerDescription),
    ("failedCommand", nullable m.failedCommand), ("failedTest", nullable m.failedTest),
    ("capacityHints", some .null), ("peonLastInference", nullable m.peonLastInference),
    ("lastActivity", some (.string m.lastActivity)),
    ("metadataSource", some (.string m.metadataSource)),
    ("metadataConfidence", some (confidenceValue m.metadataConfidence)),
    ("repoRoot", nullable m.repoRoot), ("branch", nullable m.branch),
    ("dirty", some ((m.dirty.map Json.bool).getD .null)), ("changedFiles", some .null),
    ("isWorktree", some ((m.isWorktree.map Json.bool).getD .null)),
    ("resumeOptions", some (.array []))]

def sampleSnapshot : Json → Option ObservedStatusSnapshotMetadata
  | .object members => (Members.text members "source").map (fun source =>
      { attentionOrigin := none, value := Members.text members "value", source := source,
        confidence := none, observedAt := Members.text members "observedAt" })
  | _ => none

def sampleRevision (m : Members) : Option Nat :=
  match m.text "metadataRevision" with
  | none => some 0
  | some text =>
    let revision := text.toList.foldl (fun n c => n * 10 + (c.toNat - '0'.toNat)) 0
    if toString revision = text ∧ revision < u64Limit then some revision else none

def sampleRead (m : Members) : Option RevisionedSession := do
  let id ← m.text "id"
  let createdAt ← m.text "createdAt"
  let status ← m.text "status"
  let label ← m.text "label"
  let workspace ← m.text "workspace"
  let task ← m.text "task"
  let cwd ← m.text "cwd"
  let lastActivity ← m.text "lastActivity"
  let metadataSource ← m.text "metadataSource"
  let revision ← sampleRevision m
  some {
    metadata := {
      id, createdAt, status, label, workspace, task, cwd, lastActivity, metadataSource
      metadataConfidence := .one
      lifecycle := (m.text "lifecycle").getD "alive"
      lifecyclePhase := (m.text "lifecyclePhase").getD ""
      workPhase := (m.text "workPhase").getD "unknown"
      connectivity := (m.text "connectivity").getD "online"
      terminalOutcome := m.text "terminalOutcome"
      finalObservedStatusSnapshot :=
        (OrderedMap.get m "finalObservedStatusSnapshot").bind sampleSnapshot }
    revision := revision }

/-- The times that the samples use. -/
def sampleMicros (text : String) : Option Int :=
  if text = "2026-01-01T00:00:00Z" then some 1767225600000000
  else if text = "2026-01-02T00:00:00Z" then some 1767312000000000
  else if text = "2026-01-03T00:00:00Z" then some 1767398400000000
  else none

def sampleCodec : Codec where
  toValue r := (sampleFields r).filterMap (fun field => field.2.map (field.1, ·))
  fromValue d := d.asObject.bind sampleRead
  size := plainSize
  reread d := some d
  jsonValid _ := true
  timestampMicros := sampleMicros

theorem sampleCodec_lawful : sampleCodec.Lawful := by
  refine ⟨?_, ?_, ?_, ?_⟩
  · intro r
    -- The members are among the fields, whose names are distinct.
    have hkeys : OrderedMap.keys (sampleCodec.toValue r) =
        ((sampleFields r).filter (fun field => field.2.isSome)).map Prod.fst := by
      unfold OrderedMap.keys sampleCodec
      dsimp only
      induction sampleFields r with
      | nil => rfl
      | cons field fields ih =>
        obtain ⟨key, value⟩ := field
        cases value with
        | none => simpa using ih
        | some v => simpa using ih
    rw [hkeys]
    refine List.Nodup.sublist (List.Sublist.map Prod.fst List.filter_sublist) ?_
    show (["id", "createdAt", "metadataRevision", "status", "lifecycle", "lifecyclePhase",
      "label", "labelSource", "labelContextRefined", "workspace", "task", "harnessId", "modelId",
      "cwd", "workPhase", "connectivity", "terminalOutcome", "observedStatus",
      "finalObservedStatusSnapshot", "summary", "nextAction", "needsUserInput",
      "detectedQuestion", "suggestedOptions", "blockerDescription", "failedCommand",
      "failedTest", "capacityHints", "peonLastInference", "lastActivity", "metadataSource",
      "metadataConfidence", "repoRoot", "branch", "dirty", "changedFiles", "isWorktree",
      "resumeOptions"] : List String).Nodup
    decide
  · intro r field hfield
    simp only [known, List.mem_cons, List.not_mem_nil, or_false] at hfield
    rcases hfield with rfl | rfl | rfl | rfl | rfl | rfl <;>
      simp [sampleCodec, sampleFields, OrderedMap.get]
  · intro d r h
    cases d with
    | object m =>
      refine ⟨m, rfl, ?_⟩
      have hread : sampleRead m = some r := h
      unfold sampleRead at hread
      simp only [bind, Option.bind_eq_some_iff] at hread
      obtain ⟨id, hid, createdAt, hcreatedAt, status, hstatus, label, -, workspace, -, task, -,
        cwd, -, lastActivity, -, metadataSource, -, revision, -, hr⟩ := hread
      cases hr
      exact ⟨hid, hcreatedAt, hstatus, rfl, rfl⟩
    | _ => cases h
  · intro m d h
    cases h
    exact ⟨m, rfl, fun _ => rfl⟩

def closedDocument : Json :=
  .object [("id", .string "s1"), ("label", .string "Fix the parser"),
    ("workspace", .string "/repo"), ("task", .string ""), ("cwd", .string "/repo"),
    ("status", .string "ended"), ("lifecycle", .string "dead"),
    ("lifecyclePhase", .string "ended"), ("createdAt", .string "2026-01-01T00:00:00Z"),
    ("lastActivity", .string "2026-01-01T00:00:00Z"), ("metadataSource", .string "process"),
    ("metadataConfidence", .number "1.0")]

def insertedTables : Database := Call.after sampleCodec .create (.insert closedDocument)

def deletedTables : Database :=
  Call.after sampleCodec insertedTables (.beginDelete "s1" "2026-01-01T00:00:00Z" "0" "0")

theorem deletedTables_run : Run (Step sampleCodec) .create
    [.beginDelete "s1" "2026-01-01T00:00:00Z" "0" "0", .insert closedDocument] deletedTables :=
  .next (.next .start rfl) rfl

theorem deletedTables_row :
    ∃ row, deletedTables.sessions.get "s1" = some row ∧ row.deleted = true := by
  have hrow : (deletedTables.sessions.get "s1").any (fun row => row.deleted) = true := by
    decide +kernel
  obtain ⟨row, hget, hdeleted⟩ := (Option.any_eq_true _ _).mp hrow
  exact ⟨row, hget, hdeleted⟩

theorem deleted_session_kept : Consistent deletedTables ∧
    ∃ row, deletedTables.sessions.get "s1" = some row ∧
      DeletedSession sampleCodec deletedTables "s1" row := by
  obtain ⟨hc, hdeletedSession, -⟩ := tables_stay_consistent sampleCodec_lawful deletedTables_run
  obtain ⟨row, hget, hdeleted⟩ := deletedTables_row
  exact ⟨hc, row, hget, hdeletedSession "s1" row hget hdeleted⟩

/-- The recovery of deletions reads the document of a tombstone. -/
theorem recovery_reads_tombstone : ¬ ∀ (codec : Codec), codec.Lawful → ∀ calls db,
    Run (Step codec) .create calls db → ∀ id row, db.sessions.get id = some row →
      row.deleted = true → ∀ created progress document,
        deletionRecord codec db id created ≠ .ok (some (progress, document)) := by
  intro hclaim
  obtain ⟨row, hget, hdeleted⟩ := deletedTables_row
  have hread : (deletionRecord sampleCodec deletedTables "s1" "2026-01-01T00:00:00Z").toOption.any
      Option.isSome = true := by
    decide +kernel
  have hnone := hclaim sampleCodec sampleCodec_lawful _ _ deletedTables_run "s1" row hget hdeleted
    "2026-01-01T00:00:00Z"
  cases hrecord : deletionRecord sampleCodec deletedTables "s1" "2026-01-01T00:00:00Z" with
  | error e =>
    rw [hrecord] at hread
    cases hread
  | ok found =>
    cases found with
    | none =>
      rw [hrecord] at hread
      cases hread
    | some read => exact hnone read.1 read.2 hrecord

end Orkworksd.SessionStore
