import Orkworksd.SessionStore.Database

/- What the session database relies on in the documents it stores.

   `Codec.Lawful` is what the derived serializer of a session record does with the members
   that the tables repeat. A document that was merged from a record has that record's
   texts (`mergeKnown_describes`), and reading it again finds them (`readRecord_spec`). -/
namespace Orkworksd.SessionStore
open Lib Metadata

/-! ## The codec -/

/-- `recorded_state`, of the three texts it reads. -/
def recordedStateOf (status lifecycle lifecyclePhase : String) : RecordedState :=
  if isTerminal status && lifecycle == "dead" && lifecyclePhase == "ended" then .closed
  else if lifecycle == "alive"
      || (lifecycle == "creating" && lifecyclePhase == "creating")
      || (lifecycle == "stopping" && lifecyclePhase == "ending") then .active
  else .unknown

theorem recordedState_eq (m : SessionMetadata) :
    recordedState m = recordedStateOf m.status m.lifecycle m.lifecyclePhase := rfl

/-- The recorded state of a document, with the defaults of members that are left out. -/
def documentState (m : Members) : RecordedState :=
  recordedStateOf ((m.text "status").getD "") ((m.text "lifecycle").getD "alive")
    ((m.text "lifecyclePhase").getD "")

/-- The members of a document give this record. -/
structure Gives (m : Members) (r : RevisionedSession) : Prop where
  id : m.text "id" = some r.metadata.id
  createdAt : m.text "createdAt" = some r.metadata.createdAt
  status : m.text "status" = some r.metadata.status
  lifecycle : r.metadata.lifecycle = (m.text "lifecycle").getD "alive"
  lifecyclePhase : r.metadata.lifecyclePhase = (m.text "lifecyclePhase").getD ""

/-- The members that serde writes for every record. -/
def known (r : RevisionedSession) : List (String × String) :=
  [("id", r.metadata.id), ("createdAt", r.metadata.createdAt),
    ("metadataRevision", toString r.revision), ("status", r.metadata.status),
    ("lifecycle", r.metadata.lifecycle), ("lifecyclePhase", r.metadata.lifecyclePhase)]

/-- Serde writes these fields as text members under their names, reads them from there (two
of them may be left out), and a text is read again as it was written. -/
structure Codec.Lawful (codec : Codec) : Prop where
  distinct : ∀ r, (OrderedMap.keys (codec.toValue r)).Nodup
  writes : ∀ r, ∀ field ∈ known r,
    OrderedMap.get (codec.toValue r) field.1 = some (.string field.2)
  reads : ∀ d r, codec.fromValue d = some r → ∃ m, d = .object m ∧ Gives m r
  rereads : ∀ m d, codec.reread (.object m) = some d →
    ∃ m', d = .object m' ∧ ∀ key, Members.text m' key = Members.text m key

/-! ## Merged documents -/

variable {m : Members} {key : String}

theorem text_of_get {t : String} (h : OrderedMap.get m key = some (.string t)) :
    m.text key = some t := by
  rw [Members.text, h]

theorem get_erase_aliases (hkey : key ∉ aliases) :
    OrderedMap.get (aliases.foldl OrderedMap.erase m) key = OrderedMap.get m key := by
  have herase : ∀ (names : List String) (m : Members), key ∉ names →
      OrderedMap.get (names.foldl OrderedMap.erase m) key = OrderedMap.get m key := by
    intro names
    induction names with
    | nil => exact fun _ _ => rfl
    | cons name names ih =>
      intro m hno
      obtain ⟨hne, hrest⟩ := not_or.mp (fun hor => hno (List.mem_cons.mpr hor))
      rw [List.foldl_cons, ih _ hrest, OrderedMap.get_erase, if_neg (Ne.symm hne)]
  exact herase aliases m hkey

/-- The document repeats the identity and the revision of this record and has its state. -/
structure Describes (document : Json) (r : RevisionedSession) : Prop where
  members : ∃ m : Members, document = .object m ∧ m.text "id" = some r.metadata.id ∧
    m.text "createdAt" = some r.metadata.createdAt ∧
    m.text "metadataRevision" = some (toString r.revision) ∧
    documentState m = recordedState r.metadata

variable {codec : Codec}

theorem known_not_alias (r : RevisionedSession) : ∀ field ∈ known r, field.1 ∉ aliases := by
  simp [known, aliases]

variable {document : Json}

theorem mergeKnown_describes {original : Json} {old new : RevisionedSession} (hlaw : codec.Lawful)
    (h : mergeKnown original (codec.toValue old) (codec.toValue new) = .ok document) :
    Describes document new := by
  unfold mergeKnown at h
  cases original with
  | object members =>
    cases hmerged : Json.mergeMember (.object members) (.object (codec.toValue old))
        (.object (codec.toValue new)) with
    | object merged =>
      simp only [hmerged] at h
      cases h
      have htext : ∀ field ∈ known new,
          Members.text (aliases.foldl OrderedMap.erase merged) field.1 = some field.2 := by
        intro field hfield
        obtain ⟨merged', hmerged', hget⟩ := merge_text (m := members)
          (hlaw.distinct old) (hlaw.writes new field hfield)
        cases hmerged.symm.trans hmerged'
        exact text_of_get ((get_erase_aliases (known_not_alias new field hfield)).trans hget)
      have hstatus := htext ("status", new.metadata.status) (by simp [known])
      have hlife := htext ("lifecycle", new.metadata.lifecycle) (by simp [known])
      have hphase := htext ("lifecyclePhase", new.metadata.lifecyclePhase) (by simp [known])
      refine ⟨_, rfl, ?_, ?_, ?_, ?_⟩
      · exact htext ("id", new.metadata.id) (by simp [known])
      · exact htext ("createdAt", new.metadata.createdAt) (by simp [known])
      · exact htext ("metadataRevision", toString new.revision) (by simp [known])
      · rw [documentState, hstatus, hlife, hphase, recordedState_eq]
        rfl
    | _ => simp [hmerged] at h
  | _ => cases h

variable {id : String} {db : Database}

theorem readDocument_spec {deleted : Bool}
    (h : readDocument codec db id deleted = .ok (some document)) :
    ∃ row record, db.sessions.get id = some row ∧ row.deleted = deleted ∧
      codec.reread row.metadata = some document ∧ codec.fromValue document = some record ∧
      record.metadata.id = id ∧ record.metadata.createdAt = row.createdAt ∧
      record.revision = row.revision := by
  unfold readDocument at h
  split at h
  · cases h
  · rename_i row hrow
    obtain ⟨hget, hdeleted⟩ := Option.filter_eq_some_iff.mp hrow
    split at h
    · cases h
    · split at h
      · cases h
      · rename_i document' hreread
        split at h
        · cases h
        · rename_i record hfrom
          split at h
          · cases h
          · rename_i hsame
            cases h
            obtain ⟨hid, hrest⟩ := not_or.mp hsame
            obtain ⟨hcreated, hrevision⟩ := not_or.mp hrest
            exact ⟨row, record, hget, by simpa using hdeleted, hreread, hfrom,
              Decidable.not_not.mp hid, Decidable.not_not.mp hcreated,
              Decidable.not_not.mp hrevision⟩

theorem readRecord_spec {absent : StoreError} {record : RevisionedSession} (hlaw : codec.Lawful)
    (h : readRecord codec db id absent = .ok (document, record)) :
    ∃ row, db.sessions.get id = some row ∧ row.deleted = false ∧ record.metadata.id = id ∧
      record.metadata.createdAt = row.createdAt ∧ record.revision = row.revision ∧
      ∀ m, row.metadata = .object m → documentState m = recordedState record.metadata := by
  unfold readRecord at h
  obtain ⟨found, hread, h⟩ := bind_eq_ok.mp h
  cases found with
  | none => cases h
  | some document' =>
    simp only at h
    cases hfrom : codec.fromValue document' with
    | none => simp [hfrom] at h
    | some record' =>
      simp only [hfrom] at h
      cases h
      obtain ⟨row, record', hget, hdeleted, hreread, hfrom', hid, hcreated, hrevision⟩ :=
        readDocument_spec hread
      cases hfrom.symm.trans hfrom'
      refine ⟨row, hget, hdeleted, hid, hcreated, hrevision, ?_⟩
      intro m hm
      rw [hm] at hreread
      obtain ⟨m', hm', htext⟩ := hlaw.rereads m document hreread
      obtain ⟨m'', hm'', hgives⟩ := hlaw.reads document record hfrom
      cases hm'.symm.trans hm''
      rw [recordedState_eq, hgives.lifecycle, hgives.lifecyclePhase, documentState,
        ← htext "status", ← htext "lifecycle", ← htext "lifecyclePhase", hgives.status]
      rfl

end Orkworksd.SessionStore
