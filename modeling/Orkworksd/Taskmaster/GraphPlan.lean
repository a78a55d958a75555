import Orkworksd.Taskmaster.StoreFiles

/- The plan of a graph transaction, read off a valid directory: what its checks have found
   (`Planned`), which file each record goes to, and what the directory holds once every
   replacement was made (`Replaced`). Each stored record stays in the graph and each file
   that is read afterwards holds a record of the graph (`Planned.only`). -/
namespace Orkworksd.Taskmaster
open Lib List TextMap

section plan
variable {env : Env} {files after : Files} {id : String} {expected : TextMap (Option String)}
  {records : List Recommendation} {stored : Stored} {replacements : TextMap Replacement}
  {next : TextMap Recommendation} {r : Recommendation}

theorem mem_recordsById (h : (recordsById records)[id]? = some r) : r ∈ records ∧ r.id = id := by
  rcases mem_of_get_foldl (f := fun r : Recommendation => r.id) h with hempty | hmem
  · rw [get_empty] at hempty
    cases hempty
  · exact hmem

theorem mem_keys_recordsById :
    id ∈ (recordsById records).keys ↔ id ∈ records.map (·.id) := by
  rw [TextMap.mem_keys]
  constructor
  · rintro ⟨r, hr⟩
    obtain ⟨hmem, rfl⟩ := mem_recordsById hr
    exact mem_map_of_mem hmem
  · intro hmem
    by_contra hnone
    push Not at hnone
    have hget : (recordsById records)[id]? = none := by
      cases h : (recordsById records)[id]? with
      | none => rfl
      | some r => exact absurd h (hnone r)
    exact get_foldl_ne_none (f := fun r : Recommendation => r.id) hmem hget

/-- The length check of the source: no id is repeated. -/
theorem recordsById_size
    (h : (recordsById records).size = records.length) : (records.map (·.id)).Nodup := by
  have hperm : (recordsById records).keys.Perm (records.map (·.id)).dedup := by
    refine (perm_ext_iff_of_nodup keys_nodup (nodup_dedup _)).mpr ?_
    intro id
    rw [mem_keys_recordsById, mem_dedup]
  have hlength : (records.map (·.id)).dedup.length = (records.map (·.id)).length := by
    rw [← hperm.length_eq, Std.ExtTreeMap.length_keys, h, length_map]
  rw [← (dedup_sublist _).eq_of_length hlength]
  exact nodup_dedup _

theorem graphReplacements_get {replacement : Replacement}
    (h : (graphReplacements env stored next)[id]? = some replacement) :
    ∃ r, next[id]? = some r ∧ replacement.new = some (env.serde.encode r) := by
  rw [graphReplacements, get_filterMap, Option.bind_eq_some_iff] at h
  obtain ⟨r, hr, h⟩ := h
  simp only at h
  split at h
  · cases h
  · cases h
    exact ⟨r, hr, rfl⟩

theorem verifyExpected_ok {current : List Recommendation}
    {expected : List (String × Option String)} :
    verifyExpected env files current expected = .ok () ↔
      (∀ item ∈ expected, validId item.1 = true ∧
        item.2 = (files[recommendationFilename item.1]?).map env.digests.sha256) ∧
      ∀ r ∈ current, validId r.id = true := by
  induction expected with
  | nil => simp [verifyExpected]
  | cons item expected ih =>
    obtain ⟨id, hash⟩ := item
    unfold verifyExpected
    rw [forall_mem_cons, and_assoc, ← ih]
    by_cases hid : validId id = true
    · by_cases hsame : hash = (files[recommendationFilename id]?).map env.digests.sha256
      · simp [hid, hsame]
      · simp [hid, hsame]
    · simp [hid]

/-- What the checks of a transaction that goes on to publish have found. -/
structure Planned (env : Env) (expected : TextMap (Option String)) (records : List Recommendation)
    (files : Files) (stored : Stored) (replacements : TextMap Replacement) : Prop where
  valid : validateGraph env files = .ok ()
  read : readAllStoredById env files = .ok stored
  current : ∀ id hash, expected[id]? = some hash →
    hash = (files[recommendationFilename id]?).map env.digests.sha256
  safe : ∀ r, Contains env files r → validId r.id = true
  distinct : (records.map (·.id)).Nodup
  kept : ∀ r, Contains env files r →
    ∃ r' ∈ records, r'.id = r.id ∧ (finalStatus r.status = true → r' = r)
  planned : replacements = graphReplacements env stored (recordsById records)

theorem graphPlan_planned
    (h : graphPlan env expected records files = .ok replacements) :
    ∃ stored, Planned env expected records files stored replacements := by
  obtain ⟨hvalid, h⟩ := seq_eq_ok.mp h
  obtain ⟨stored, hstored, h⟩ := bind_eq_ok.mp h
  obtain ⟨hexpected, h⟩ := seq_eq_ok.mp h
  obtain ⟨hsize, h⟩ := seq_eq_ok.mp h
  obtain ⟨-, h⟩ := seq_eq_ok.mp h
  obtain ⟨hkept, h⟩ := seq_eq_ok.mp h
  cases h
  rw [reject_eq_ok] at hsize
  obtain ⟨hcurrent, hsafe⟩ := verifyExpected_ok.mp hexpected
  have hlisted : ∀ r, Contains env files r →
      (r.id, r) ∈ (stored.map (fun _ record => record.1)).toList := by
    rintro r ⟨bytes, hholds⟩
    rw [mem_toList, get_map, stored_get hvalid hstored hholds]
    rfl
  refine ⟨stored, hvalid, hstored, ?_, ?_, recordsById_size (by simpa using hsize), ?_, rfl⟩
  · intro id hash hget
    exact (hcurrent (id, hash) (mem_toList.mpr hget)).2
  · intro r hr
    exact hsafe r (mem_map.mpr ⟨_, hlisted r hr, rfl⟩)
  · intro r hr
    obtain ⟨⟨r', hget⟩, hfinal⟩ := checkKept_iff.mp hkept _ (hlisted r hr)
    obtain ⟨hmem, hid⟩ := mem_recordsById hget
    exact ⟨r', hmem, hid, fun hstatus => Option.some.inj (hget.symm.trans (hfinal hstatus))⟩

/-- The ids of a planned transaction are safe file names if each of them is
expected or stored. -/
theorem graphPlan_safe
    (h : graphPlan env expected records files = .ok replacements)
    (hknown : ∀ r ∈ records, (∃ r', Contains env files r' ∧ r'.id = r.id) ∨ r.id ∈ expected.keys) :
    ∀ item ∈ replacements.toList, validId item.1 = true := by
  obtain ⟨stored, hplanned⟩ := graphPlan_planned h
  obtain ⟨_, -, hchecks⟩ := bind_eq_ok.mp (seq_eq_ok.mp h).2
  obtain ⟨hcurrent, -⟩ := verifyExpected_ok.mp (seq_eq_ok.mp hchecks).1
  intro item hitem
  have hget := mem_toList.mp hitem
  rw [hplanned.planned] at hget
  obtain ⟨r, hnext, -⟩ := graphReplacements_get hget
  obtain ⟨hr, hid⟩ := mem_recordsById hnext
  rw [← hid]
  rcases hknown r hr with ⟨r', hr', hsame⟩ | hexpected
  · exact hsame ▸ hplanned.safe r' hr'
  · obtain ⟨hash, hhash⟩ := TextMap.mem_keys.mp hexpected
    exact (hcurrent (r.id, hash) (mem_toList.mpr hhash)).1

theorem Planned.replacement (h : Planned env expected records files stored replacements)
    (hr : r ∈ records) :
    replacements[r.id]? = if (stored[r.id]?).map Prod.snd = some (env.serde.encode r) then none
      else some ⟨(stored[r.id]?).map Prod.snd, some (env.serde.encode r)⟩ := by
  have hnext : (recordsById records)[r.id]? = some r :=
    get_foldl_of_mem (f := fun r : Recommendation => r.id) h.distinct hr
  rw [h.planned, graphReplacements, get_filterMap, hnext]
  simp only [Option.bind_some, beq_iff_eq]

theorem Planned.replaced (h : Planned env expected records files stored replacements)
    {replacement : Replacement} (hget : replacements[id]? = some replacement) :
    ∃ r ∈ records, r.id = id ∧ (stored[id]?).map Prod.snd ≠ some (env.serde.encode r) ∧
      replacement = ⟨(stored[id]?).map Prod.snd, some (env.serde.encode r)⟩ := by
  have hget' := hget
  rw [h.planned] at hget'
  obtain ⟨r, hnext, -⟩ := graphReplacements_get hget'
  obtain ⟨hr, rfl⟩ := mem_recordsById hnext
  rw [h.replacement hr] at hget
  split at hget
  · cases hget
  · rename_i hne
    cases hget
    exact ⟨r, hr, rfl, hne, rfl⟩

/-- The contents of the directory once every replacement was made. -/
structure Replaced (replacements : TextMap Replacement) (files after : Files) : Prop where
  old : ∀ id replacement, replacements[id]? = some replacement →
    files[recommendationFilename id]? = replacement.old
  new : ∀ id replacement, replacements[id]? = some replacement →
    after[recommendationFilename id]? = replacement.new
  others : ∀ name : String, (∀ id ∈ replacements.keys, recommendationFilename id ≠ name) →
    after[name]? = files[name]?

theorem Planned.written (h : Planned env expected records files stored replacements)
    (hfiles : Replaced replacements files after) (hr : r ∈ records) :
    after[recommendationFilename r.id]? = some (env.serde.encode r) ∨
    ∃ name : String, isJsonFile name = true ∧ after[name]? = some (env.serde.encode r) ∧
      files[name]? = some (env.serde.encode r) := by
  have hreplacement := h.replacement hr
  split at hreplacement
  · rename_i hsame
    obtain ⟨⟨old, bytes⟩, hget, rfl⟩ := Option.map_eq_some_iff.mp hsame
    obtain ⟨⟨name, hfile, hjson, hread⟩, hid⟩ := readAllStoredById_get h.read hget
    refine .inr ⟨name, hjson, ?_, hfile⟩
    rw [hfiles.others name, hfile]
    -- the file of a replaced record holds that record, so it is another one
    rintro id hid' rfl
    obtain ⟨replacement, hitem⟩ := TextMap.mem_keys.mp hid'
    have hold := hfiles.old id replacement hitem
    obtain ⟨r', -, -, -, rfl⟩ := h.replaced hitem
    rw [hfile] at hold
    obtain ⟨⟨old', bytes'⟩, hget', hbytes⟩ := Option.map_eq_some_iff.mp hold.symm
    obtain ⟨⟨_, -, -, hread'⟩, rfl⟩ := readAllStoredById_get h.read hget'
    subst hbytes
    rw [hread, Except.ok.injEq] at hread'
    subst hread'
    rw [hid, hreplacement] at hitem
    cases hitem
  · exact .inl (hfiles.new _ _ hreplacement)

theorem Planned.contains (hserde : env.serde.Lawful)
    (h : Planned env expected records files stored replacements)
    (hfiles : Replaced replacements files after) (hafter : validateGraph env after = .ok ())
    (hr : r ∈ records) (hid : r.id ≠ "") : Contains env after r := by
  obtain ⟨name, hjson, hfile⟩ : ∃ name : String, isJsonFile name = true ∧
      after[name]? = some (env.serde.encode r) := by
    rcases h.written hfiles hr with hfile | ⟨name, hjson, hfile, -⟩
    · exact ⟨_, (isJsonFile_filename r.id).mpr hid, hfile⟩
    · exact ⟨name, hjson, hfile⟩
  obtain ⟨all, hall, -⟩ := validateGraph_ok.mp hafter
  obtain ⟨read, hread, -⟩ := readAll_ok.mp hall
  obtain ⟨r', hrecord⟩ := readAllStored_readable hread hfile hjson
  have hsame := readRecord_encode hserde hrecord
  subst hsame
  exact ⟨_, name, hfile, hjson, hrecord⟩

theorem validId_ne_empty (h : validId id = true) : id ≠ "" := by
  rintro rfl
  revert h
  decide

theorem Planned.only (hserde : env.serde.Lawful)
    (h : Planned env expected records files stored replacements)
    (hfiles : Replaced replacements files after) (hr : Contains env after r) : r ∈ records := by
  obtain ⟨bytes, name, hfile, hjson, hread⟩ := hr
  by_cases htarget : ∃ id ∈ replacements.keys, recommendationFilename id = name
  · obtain ⟨id, hid, rfl⟩ := htarget
    obtain ⟨replacement, hitem⟩ := TextMap.mem_keys.mp hid
    have hnew := hfiles.new id replacement hitem
    obtain ⟨r', hr', -, -, rfl⟩ := h.replaced hitem
    rw [hfile, Option.some.injEq] at hnew
    subst hnew
    rw [readRecord_encode hserde hread]
    exact hr'
  · push Not at htarget
    rw [hfiles.others name htarget] at hfile
    have hholds : Holds env files r bytes := ⟨name, hfile, hjson, hread⟩
    have hget := stored_get h.valid h.read hholds
    obtain ⟨r', hr', hid, -⟩ := h.kept r ⟨bytes, hholds⟩
    have hreplacement := h.replacement hr'
    rw [hid, hget] at hreplacement
    split at hreplacement
    · rename_i hsame
      cases hsame
      rw [readRecord_encode hserde hread]
      exact hr'
    · -- it was replaced in its own file, which is the only one it was in
      have hold := hfiles.old _ _ hreplacement
      have hjson' := (isJsonFile_filename r.id).mpr (validId_ne_empty (h.safe r ⟨bytes, hholds⟩))
      have hname := name_unique h.valid hfile hold hjson hjson' hread hread rfl
      exact absurd hname.symm (htarget r.id (TextMap.mem_keys.mpr ⟨_, hreplacement⟩))

/-- Where every record is in its own file, the graph's records are too. -/
theorem Planned.file (h : Planned env expected records files stored replacements)
    (hserde : env.serde.Lawful) (hnamed : Named env files)
    (hfiles : Replaced replacements files after) (hr : r ∈ records) :
    after[recommendationFilename r.id]? = some (env.serde.encode r) := by
  rcases h.written hfiles hr with hfile | ⟨name, hjson, hfile, hbefore⟩
  · exact hfile
  · -- the file has the encoding already and is left alone
    obtain ⟨r', hread⟩ := readable h.valid hbefore hjson
    cases readRecord_encode hserde hread
    rwa [← hnamed name _ r hbefore hjson hread]

theorem Planned.name (h : Planned env expected records files stored replacements)
    (hserde : env.serde.Lawful) (hnamed : Named env files)
    (hfiles : Replaced replacements files after) {name : String} {bytes : Bytes}
    (hfile : after[name]? = some bytes) (hjson : isJsonFile name = true) :
    ∃ r ∈ records, r.id ≠ "" ∧ name = recommendationFilename r.id ∧
      bytes = env.serde.encode r := by
  -- the name is the file of one of the graph's records
  obtain ⟨r, hr, rfl⟩ : ∃ r ∈ records, recommendationFilename r.id = name := by
    by_cases htarget : ∃ id ∈ replacements.keys, recommendationFilename id = name
    · obtain ⟨id, hid, rfl⟩ := htarget
      obtain ⟨replacement, hitem⟩ := TextMap.mem_keys.mp hid
      obtain ⟨r, hr, rfl, -⟩ := h.replaced hitem
      exact ⟨r, hr, rfl⟩
    · push Not at htarget
      rw [hfiles.others name htarget] at hfile
      obtain ⟨r, hread⟩ := readable h.valid hfile hjson
      obtain ⟨r', hr', hid, -⟩ := h.kept r ⟨bytes, name, hfile, hjson, hread⟩
      exact ⟨r', hr', by rw [hid, hnamed name bytes r hfile hjson hread]⟩
  refine ⟨r, hr, (isJsonFile_filename _).mp hjson, rfl, ?_⟩
  rw [h.file hserde hnamed hfiles hr, Option.some.injEq] at hfile
  exact hfile.symm

end plan

end Orkworksd.Taskmaster
