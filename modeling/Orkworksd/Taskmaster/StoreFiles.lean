import Orkworksd.Taskmaster.Store
import Orkworksd.Taskmaster.TransactionRecovery

/- What a read of the recommendation directory finds: the names of its files, the records
   in them, and the map of the records by their ids. In a directory that both validators
   accept an id is in one file (`name_unique`), so that the map holds every record
   (`stored_get`). -/
namespace Orkworksd.Taskmaster
open Lib List TextMap

/-! ## File names -/

variable (id : String)

theorem colon_notMem_filenameComponent : ':' ∉ (filenameComponent id).toList :=
  notMem_filenameComponent (k := 0x3a) (by decide) (by decide) (by decide) (by decide) id

theorem filenameComponent_eq_empty {id : String} : filenameComponent id = "" ↔ id = "" := by
  refine ⟨?_, ?_⟩
  · intro h
    exact filenameComponent_injective (h.trans (by decide))
  · rintro rfl
    decide

theorem isJsonFile_filename : isJsonFile (recommendationFilename id) = true ↔ id ≠ "" := by
  unfold isJsonFile recommendationFilename
  have hsuffix : ".json".toList.isSuffixOf (filenameComponent id ++ ".json").toList = true := by
    rw [isSuffixOf_iff_suffix, String.toList_append]
    exact suffix_append _ _
  rw [hsuffix, Bool.true_and, bne_iff_ne, Ne, Ne, not_iff_not]
  rw [← filenameComponent_eq_empty]
  constructor
  · intro h
    exact (String.append_left_inj ".json").mp (h.trans (by decide))
  · intro h
    rw [h]
    decide

theorem isJsonFile_temporary : isJsonFile (temporaryFilename id) = false := by
  unfold temporaryFilename
  split
  · decide
  · unfold isJsonFile
    rw [Bool.and_eq_false_iff]
    refine .inl ?_
    rw [Bool.eq_false_iff]
    intro h
    rw [isSuffixOf_iff_suffix, String.toList_append] at h
    -- the last characters differ
    obtain ⟨start, hstart⟩ := h
    have hlast := congrArg List.getLast? hstart
    rw [List.getLast?_append, List.getLast?_append] at hlast
    have hn : ".json".toList.getLast? = some 'n' := by decide
    have hp : ".tmp".toList.getLast? = some 'p' := by decide
    rw [hn, hp] at hlast
    cases hlast

theorem legacyRollupId_filename : legacyRollupId (recommendationFilename id) = none := by
  unfold legacyRollupId
  rw [if_neg]
  rw [Bool.and_eq_true, List.isPrefixOf_iff_prefix]
  rintro ⟨hfront, -⟩
  have hcolon : ':' ∈ (recommendationFilename id).toList :=
    hfront.subset (by decide)
  rw [recommendationFilename, String.toList_append] at hcolon
  rcases mem_append.mp hcolon with h | h
  · exact colon_notMem_filenameComponent id h
  · exact absurd h (by decide)

/-! ## The records of a directory -/

section directory
variable {env : Env} {files : Files}

variable {l : List (String × Bytes)} {stored : List (Recommendation × Bytes)} {bytes : Bytes}
  {name : String}

variable {records : List Recommendation}

theorem readFiles_cons_ok (hjson : isJsonFile name = true) :
    readFiles env ((name, bytes) :: l) = .ok stored ↔
      ∃ record others, readRecord env bytes = .ok record ∧ readFiles env l = .ok others ∧
        stored = (record, bytes) :: others := by
  rw [readFiles, if_pos hjson]
  constructor
  · intro h
    obtain ⟨record, hrecord, h⟩ := bind_eq_ok.mp h
    obtain ⟨others, hothers, h⟩ := bind_eq_ok.mp h
    cases h
    exact ⟨record, others, hrecord, hothers, rfl⟩
  · rintro ⟨record, others, hrecord, hothers, rfl⟩
    exact bind_eq_ok.mpr ⟨record, hrecord, bind_eq_ok.mpr ⟨others, hothers, rfl⟩⟩

theorem readFiles_cons_skip (hjson : ¬ isJsonFile name = true) :
    readFiles env ((name, bytes) :: l) = readFiles env l := by
  rw [readFiles, if_neg hjson]

theorem mem_readFiles (h : readFiles env l = .ok stored) (record : Recommendation) (bytes : Bytes) :
    (record, bytes) ∈ stored ↔ ∃ name, (name, bytes) ∈ l ∧ isJsonFile name = true ∧
      readRecord env bytes = .ok record := by
  induction l generalizing stored with
  | nil =>
    cases h
    simp
  | cons file l ih =>
    obtain ⟨name, contents⟩ := file
    by_cases hjson : isJsonFile name = true
    · obtain ⟨first, others, hfirst, hothers, rfl⟩ := (readFiles_cons_ok hjson).mp h
      rw [mem_cons, ih hothers, Prod.mk.injEq]
      constructor
      · rintro (⟨rfl, rfl⟩ | ⟨name', hmem, hrest⟩)
        · exact ⟨name, mem_cons_self, hjson, hfirst⟩
        · exact ⟨name', mem_cons_of_mem _ hmem, hrest⟩
      · rintro ⟨name', hmem, hjson', hread⟩
        rcases mem_cons.mp hmem with heq | hmem
        · cases heq
          rw [hfirst, Except.ok.injEq] at hread
          exact .inl ⟨hread.symm, rfl⟩
        · exact .inr ⟨name', hmem, hjson', hread⟩
    · rw [readFiles_cons_skip hjson] at h
      rw [ih h]
      constructor
      · rintro ⟨name', hmem, hrest⟩
        exact ⟨name', mem_cons_of_mem _ hmem, hrest⟩
      · rintro ⟨name', hmem, hjson', hread⟩
        rcases mem_cons.mp hmem with heq | hmem
        · cases heq
          exact absurd hjson' hjson
        · exact ⟨name', hmem, hjson', hread⟩

theorem readFiles_total
    (h : ∀ file ∈ l, isJsonFile file.1 = true → ∃ record, readRecord env file.2 = .ok record) :
    ∃ stored, readFiles env l = .ok stored := by
  induction l with
  | nil => exact ⟨[], rfl⟩
  | cons file l ih =>
    obtain ⟨name, bytes⟩ := file
    obtain ⟨others, hothers⟩ := ih (fun f hf => h f (mem_cons_of_mem _ hf))
    by_cases hjson : isJsonFile name = true
    · obtain ⟨record, hrecord⟩ := h _ mem_cons_self hjson
      exact ⟨_, (readFiles_cons_ok hjson).mpr ⟨record, others, hrecord, hothers, rfl⟩⟩
    · exact ⟨others, (readFiles_cons_skip hjson).trans hothers⟩

/-- The directory holds the record in a file that is read. -/
def Holds (env : Env) (files : Files) (recommendation : Recommendation) (bytes : Bytes) : Prop :=
  ∃ name : String, files[name]? = some bytes ∧ isJsonFile name = true ∧
    readRecord env bytes = .ok recommendation

/-- Every record is in the file of its id. -/
def Named (env : Env) (files : Files) : Prop :=
  ∀ (name : String) (bytes : Bytes) (recommendation : Recommendation),
    files[name]? = some bytes → isJsonFile name = true →
      readRecord env bytes = .ok recommendation → name = recommendationFilename recommendation.id

theorem mem_readAllStored (h : readAllStored env files = .ok stored)
    (recommendation : Recommendation) (bytes : Bytes) :
    (recommendation, bytes) ∈ stored ↔ Holds env files recommendation bytes := by
  rw [mem_readFiles h]
  simp only [mem_toList]
  rfl

theorem readAll_ok :
    readAll env files = .ok records ↔
      ∃ stored, readAllStored env files = .ok stored ∧ records = stored.map Prod.fst := by
  unfold readAll
  cases readAllStored env files with
  | ok stored => simp [Except.map, eq_comm]
  | error e => simp [Except.map]

theorem mem_readAll (h : readAll env files = .ok records) (recommendation : Recommendation) :
    recommendation ∈ records ↔ ∃ bytes, Holds env files recommendation bytes := by
  obtain ⟨stored, hstored, rfl⟩ := readAll_ok.mp h
  rw [mem_map]
  constructor
  · rintro ⟨⟨r, bytes⟩, hmem, rfl⟩
    exact ⟨bytes, (mem_readAllStored hstored _ _).mp hmem⟩
  · rintro ⟨bytes, hholds⟩
    exact ⟨(recommendation, bytes), (mem_readAllStored hstored _ _).mpr hholds, rfl⟩

theorem readFiles_ids_nodup (h : readFiles env l = .ok stored) (hnames : (l.map Prod.fst).Nodup)
    (hnamed : ∀ name bytes record, (name, bytes) ∈ l → isJsonFile name = true →
      readRecord env bytes = .ok record → name = recommendationFilename record.id) :
    (stored.map (fun record => record.1.id)).Nodup := by
  induction l generalizing stored with
  | nil =>
    cases h
    simp
  | cons file l ih =>
    obtain ⟨name, bytes⟩ := file
    rw [map_cons, nodup_cons] at hnames
    have hnamed' : ∀ name bytes record, (name, bytes) ∈ l → isJsonFile name = true →
        readRecord env bytes = .ok record → name = recommendationFilename record.id :=
      fun n b r hmem => hnamed n b r (mem_cons_of_mem _ hmem)
    by_cases hjson : isJsonFile name = true
    · obtain ⟨first, others, hfirst, hothers, rfl⟩ := (readFiles_cons_ok hjson).mp h
      rw [map_cons, nodup_cons]
      refine ⟨?_, ih hothers hnames.2 hnamed'⟩
      intro hmem
      obtain ⟨⟨other, bytes'⟩, hother, hid⟩ := mem_map.mp hmem
      obtain ⟨name', hfile, hjson', hread⟩ := (mem_readFiles hothers _ _).mp hother
      have hsame : name' = name := by
        rw [hnamed' name' bytes' other hfile hjson' hread, hid,
          ← hnamed name bytes first mem_cons_self hjson hfirst]
      exact hnames.1 (mem_map.mpr ⟨(name', bytes'), hfile, hsame⟩)
    · rw [readFiles_cons_skip hjson] at h
      exact ih h hnames.2 hnamed'

theorem readAllStored_ids_nodup (hnamed : Named env files)
    (h : readAllStored env files = .ok stored) :
    (stored.map (fun record => record.1.id)).Nodup := by
  refine readFiles_ids_nodup h ?_ ?_
  · rw [toList_keys]
    exact keys_nodup
  · intro name bytes record hmem hjson hread
    exact hnamed name bytes record (mem_toList.mp hmem) hjson hread

theorem readAll_ids_nodup (hnamed : Named env files)
    (h : readAll env files = .ok records) : (records.map (·.id)).Nodup := by
  obtain ⟨stored, hstored, rfl⟩ := readAll_ok.mp h
  rw [map_map]
  exact readAllStored_ids_nodup hnamed hstored

theorem readAllStored_total
    (h : ∀ (name : String) (bytes : Bytes), files[name]? = some bytes → isJsonFile name = true →
      ∃ record, readRecord env bytes = .ok record) :
    ∃ stored, readAllStored env files = .ok stored :=
  readFiles_total (fun file hmem hjson => h file.1 file.2 (mem_toList.mp hmem) hjson)

theorem readFiles_readable (h : readFiles env l = .ok stored) (hfile : (name, bytes) ∈ l)
    (hjson : isJsonFile name = true) : ∃ record, readRecord env bytes = .ok record := by
  induction l generalizing stored with
  | nil => cases hfile
  | cons file l ih =>
    obtain ⟨name', bytes'⟩ := file
    by_cases hjson' : isJsonFile name' = true
    · obtain ⟨first, others, hfirst, hothers, rfl⟩ := (readFiles_cons_ok hjson').mp h
      rcases mem_cons.mp hfile with heq | hmem
      · cases heq
        exact ⟨first, hfirst⟩
      · exact ih hothers hmem
    · rw [readFiles_cons_skip hjson'] at h
      rcases mem_cons.mp hfile with heq | hmem
      · cases heq
        exact absurd hjson hjson'
      · exact ih h hmem

theorem readAllStored_readable (h : readAllStored env files = .ok stored)
    (hfile : files[name]? = some bytes) (hjson : isJsonFile name = true) :
    ∃ record, readRecord env bytes = .ok record :=
  readFiles_readable h (mem_toList.mpr hfile) hjson

theorem validateGraph_ok :
    validateGraph env files = .ok () ↔
      ∃ records, readAll env files = .ok records ∧ Graph.Ok env.digests records := by
  unfold validateGraph
  rw [bind_eq_ok]
  simp only [validateGraphRecords_ok_iff]

variable {recommendation : Recommendation}

theorem readRecord_ok :
    readRecord env bytes = .ok recommendation ↔ env.serde.decode bytes = .ok recommendation ∧
      validateRecommendation env.digests recommendation = .ok () := by
  unfold readRecord
  cases env.serde.decode bytes with
  | error e =>
    refine ⟨?_, ?_⟩
    · intro h
      obtain ⟨_, h, -⟩ := bind_eq_ok.mp h
      cases h
    · rintro ⟨h, -⟩
      cases h
  | ok r =>
    change (validateRecommendation env.digests r >>= fun _ => Except.ok r) = _ ↔ _
    rw [seq_eq_ok]
    constructor
    · rintro ⟨hvalid, heq⟩
      cases heq
      exact ⟨rfl, hvalid⟩
    · rintro ⟨heq, hvalid⟩
      cases heq
      exact ⟨hvalid, rfl⟩

variable {after : Recommendation}

theorem readRecord_encode (hserde : env.serde.Lawful)
    (h : readRecord env (env.serde.encode after) = .ok recommendation) :
    recommendation = after := by
  have hdecode := (readRecord_ok.mp h).1
  rw [hserde.decode_encode, Except.ok.injEq] at hdecode
  exact hdecode.symm

/-- The directory holds the record. -/
def Contains (env : Env) (files : Files) (recommendation : Recommendation) : Prop :=
  ∃ bytes, Holds env files recommendation bytes

variable {r r' : Recommendation} {bytes' : Bytes} {name' : String}

theorem readable (hvalid : validateGraph env files = .ok ()) (hfile : files[name]? = some bytes)
    (hjson : isJsonFile name = true) : ∃ record, readRecord env bytes = .ok record := by
  obtain ⟨records, hrecords, -⟩ := validateGraph_ok.mp hvalid
  obtain ⟨all, hall, -⟩ := readAll_ok.mp hrecords
  exact readAllStored_readable hall hfile hjson

theorem readAllStoredById_get {record : Recommendation × Bytes} {stored : Stored} {id : String}
    (h : readAllStoredById env files = .ok stored)
    (hget : stored[id]? = some record) : Holds env files record.1 record.2 ∧ record.1.id = id := by
  unfold readAllStoredById at h
  cases hread : readAllStored env files with
  | error e =>
    rw [hread] at h
    cases h
  | ok records =>
    rw [hread] at h
    cases h
    rcases mem_of_get_foldl (f := fun record : Recommendation × Bytes => record.1.id) hget with hempty | ⟨hmem, hid⟩
    · rw [get_empty] at hempty
      cases hempty
    · exact ⟨(mem_readAllStored hread _ _).mp hmem, hid⟩

theorem readFiles_name_unique (h : readFiles env l = .ok stored)
    (hids : (stored.map (fun record => record.1.id)).Nodup) (hfile : (name, bytes) ∈ l)
    (hfile' : (name', bytes') ∈ l) (hjson : isJsonFile name = true)
    (hjson' : isJsonFile name' = true) (hread : readRecord env bytes = .ok r)
    (hread' : readRecord env bytes' = .ok r') (hid : r.id = r'.id) : name = name' := by
  induction l generalizing stored with
  | nil => cases hfile
  | cons file l ih =>
    obtain ⟨first, contents⟩ := file
    by_cases hfirst : isJsonFile first = true
    · obtain ⟨record, others, hrecord, hothers, rfl⟩ := (readFiles_cons_ok hfirst).mp h
      rw [map_cons, nodup_cons] at hids
      -- a second file with the id of the first one would repeat it
      have honce : ∀ {n : String} {b : Bytes} {q : Recommendation}, (n, b) ∈ l →
          isJsonFile n = true → readRecord env b = .ok q → q.id ≠ record.id := by
        intro n b q hmem hn hq heq
        exact hids.1 (mem_map.mpr ⟨(q, b), (mem_readFiles hothers _ _).mpr ⟨n, hmem, hn, hq⟩, heq⟩)
      rcases mem_cons.mp hfile with heq | hmem
      · rcases mem_cons.mp hfile' with heq' | hmem'
        · cases heq
          cases heq'
          rfl
        · cases heq
          rw [hrecord, Except.ok.injEq] at hread
          exact absurd (hread ▸ hid.symm) (honce hmem' hjson' hread')
      · rcases mem_cons.mp hfile' with heq' | hmem'
        · cases heq'
          rw [hrecord, Except.ok.injEq] at hread'
          exact absurd (hread' ▸ hid) (honce hmem hjson hread)
        · exact ih hothers hids.2 hmem hmem'
    · rw [readFiles_cons_skip hfirst] at h
      have hrest : ∀ {n : String} {b : Bytes}, (n, b) ∈ (first, contents) :: l →
          isJsonFile n = true → (n, b) ∈ l := by
        intro n b hmem hn
        rcases mem_cons.mp hmem with heq | hmem
        · cases heq
          exact absurd hn hfirst
        · exact hmem
      exact ih h hids (hrest hfile hjson) (hrest hfile' hjson')

theorem stored_get_of_nodup {all : List (Recommendation × Bytes)}
    (hall : readAllStored env files = .ok all)
    (hids : (all.map (fun record => record.1.id)).Nodup) {stored : Stored}
    (hstored : readAllStoredById env files = .ok stored) (h : Holds env files r bytes) :
    stored[r.id]? = some (r, bytes) := by
  unfold readAllStoredById at hstored
  rw [hall] at hstored
  cases hstored
  exact get_foldl_of_mem (f := fun record : Recommendation × Bytes => record.1.id) hids
    ((mem_readAllStored hall _ _).mpr h)

theorem stored_get (hvalid : validateGraph env files = .ok ()) {stored : Stored}
    (hstored : readAllStoredById env files = .ok stored) (h : Holds env files r bytes) :
    stored[r.id]? = some (r, bytes) := by
  obtain ⟨records, hrecords, hgraph⟩ := validateGraph_ok.mp hvalid
  obtain ⟨all, hall, rfl⟩ := readAll_ok.mp hrecords
  have hids := hgraph.ids
  rw [map_map] at hids
  exact stored_get_of_nodup hall hids hstored h

theorem name_unique (hvalid : validateGraph env files = .ok ()) (hfile : files[name]? = some bytes)
    (hfile' : files[name']? = some bytes') (hjson : isJsonFile name = true)
    (hjson' : isJsonFile name' = true) (hread : readRecord env bytes = .ok r)
    (hread' : readRecord env bytes' = .ok r') (hid : r.id = r'.id) : name = name' := by
  obtain ⟨records, hrecords, hgraph⟩ := validateGraph_ok.mp hvalid
  obtain ⟨all, hall, rfl⟩ := readAll_ok.mp hrecords
  have hids := hgraph.ids
  rw [map_map] at hids
  exact readFiles_name_unique hall hids (mem_toList.mpr hfile)
    (mem_toList.mpr hfile') hjson hjson' hread hread' hid

end directory

end Orkworksd.Taskmaster
