import Orkworksd.Taskmaster.DeletionJournalInventory

/- What recovery accepts.

   `Phase c` is the crash invariant of a removal, before (`c = false`) and after the
   rename to the committed manifest. The states with a transaction directory are
   `Clean`, when only cleaning up is left to do, `Drafting`, while a manifest is
   being written, and `Removing`, while the targets are removed. The results of this
   module are that `validateTransaction` accepts each of them (`validate_draft`,
   `validate_unmarked`, `validate_committed`): torn backups are prefixes of the
   originals, a torn first manifest is a prefix of the one that the complete backups
   determine, and a partly removed record set is put together again from the
   backups. -/
namespace Orkworksd.Taskmaster.Deletion
open Lib List TextMap

/-! ## Phases -/

section phases
variable (job : Job)

/-- Every backup is a beginning of what it backs up and, when complete, all of it. -/
def Copies (complete : Bool) (backups : Files) : Prop :=
  ∀ (name : String) (bytes : Bytes), backups[name]? = some bytes → job.isTarget name = true ∧
    ∃ full : Bytes, job.before[name]? = some full ∧ bytes <+: full ∧
      (complete = true → bytes = full)

/-- The record files once the removal is settled. -/
def Job.settled (committed : Bool) : Files := if committed then job.kept else job.before

/-- The transaction directory when only cleaning up is left to do. Under a
committed manifest no backup is torn, and no backup outlives the manifest. -/
structure Clean (committed : Bool) (t : Transaction) : Prop where
  temporary : t.temporary = none
  manifest : t.manifest = none ∨ t.manifest = some (job.manifestBytes committed)
  backups : ∀ backups, t.backups = some backups → Copies job committed backups
  staged : t.staged = none ∨ t.staged = some ∅
  others : t.others = []
  vouched : committed = true → t.manifest = none → t.backups = none

/-- A manifest is being written: the first one when the backups are complete, the
second one when the first one is in place. -/
structure Drafting (t : Transaction) : Prop where
  nonempty : job.entries ≠ []
  clean : Clean job false { t with temporary := none }
  written : ∃ written, t.temporary = some written ∧
    ((t.manifest = none ∧ written <+: job.manifestBytes false ∧ t.backups = some job.saved) ∨
      (t.manifest = some (job.manifestBytes false) ∧ written <+: job.manifestBytes true))

/-- The removal is committed and some of its targets are gone. -/
structure Removing (files : Files) (t : Transaction) : Prop where
  clean : Clean job true t
  manifest : t.manifest = some (job.manifestBytes true)
  backups : t.backups = some job.saved
  part : Part files job.before
  kept : Part job.kept files

/-- The crash invariant, before and after the rename to the committed manifest. -/
def Phase (committed : Bool) (d : Disk) : Prop :=
  (d.files = job.settled committed ∧ (d.journal = none ∨ d.journal = some ∅)) ∨
  (∃ t, d = job.disk (job.settled committed) t ∧ Clean job committed t) ∨
  (committed = false ∧ ∃ t, d = job.disk job.before t ∧ Drafting job t) ∨
  (committed = true ∧ ∃ files t, d = job.disk files t ∧ Removing job files t)

end phases

/-! ## What recovery validates -/

section validation
variable {env : Env} {job : Job} {inventory : Inventory}

variable {backups : Files}

theorem readManifest_job (hjob : job.Sound env) (committed : Bool) :
    readManifest env (some (job.manifestBytes committed)) = .ok (some (job.manifest committed)) := by
  have hreplaces : (job.manifest committed).entries.any replaces = false := by
    rw [any_eq_false]
    intro entry hentry
    obtain ⟨bytes, -, heq⟩ := hjob.entry entry hentry
    rw [heq]
    simp [replaces, deletionEntry]
  have hparse : parseStrictJson env.parseManifest (job.manifestBytes committed) byteLimit =
      some (job.manifest committed) := by
    rw [parseStrictJson, if_neg (Nat.not_lt.mpr (hjob.bounded committed)), hjob.readsBack]
  have hlength : decide (entryLimit < (job.manifest committed).entries.length) = false := by
    rw [decide_eq_false_iff_not, Nat.not_lt]
    exact hjob.entries_length
  simp only [readManifest, hparse]
  rw [seq_eq_ok, refuseInvalid_ok, seq_eq_ok, asInvalid_ok]
  exact ⟨by rw [hreplaces, hlength]; rfl, hjob.valid, rfl⟩

variable {committed : Bool}

variable {entry : RollupTransactionEntry}

theorem selected_get (hjob : job.Sound env) {name : String} :
    (selectedEntries (some (job.manifest committed)))[name]? = some entry ↔
      entry ∈ job.entries ∧ entry.target = name := by
  unfold selectedEntries
  rw [get_ofList, mem_map]
  · constructor
    · rintro ⟨entry', hentry, heq⟩
      cases heq
      exact ⟨hentry, rfl⟩
    · rintro ⟨hentry, rfl⟩
      exact ⟨entry, hentry, rfl⟩
  · rw [map_map]
    change (job.entries.map (·.target)).Nodup
    rw [map_congr_left (fun entry hentry => hjob.target hentry)]
    have h := hjob.ids_nodup.map recommendationFilename_injective
    rwa [map_map] at h

/-- The entries in the order recovery goes through them. -/
def Job.selected (job : Job) (committed : Bool) : List RollupTransactionEntry :=
  (selectedEntries (some (job.manifest committed))).toList.map Prod.snd

theorem mem_selected (hjob : job.Sound env) :
    entry ∈ job.selected committed ↔ entry ∈ job.entries := by
  unfold Job.selected
  rw [mem_map]
  constructor
  · rintro ⟨p, hp, rfl⟩
    exact ((selected_get hjob).mp (mem_toList.mp hp)).1
  · intro hentry
    exact ⟨(entry.target, entry), mem_toList.mpr ((selected_get hjob).mpr ⟨hentry, rfl⟩), rfl⟩

theorem selected_nodup (hjob : job.Sound env) : (job.selected committed).Nodup := by
  refine List.Nodup.of_map (·.target) ?_
  unfold Job.selected
  have hkeys : ((selectedEntries (some (job.manifest committed))).toList.map Prod.snd).map
      (·.target) = (selectedEntries (some (job.manifest committed))).keys := by
    rw [← toList_keys, map_map]
    refine map_congr_left ?_
    intro p hp
    exact ((selected_get hjob).mp (mem_toList.mp hp)).2
  rw [hkeys]
  exact keys_nodup

/-- The backups recovery has read are the files of the backup directory. -/
def Lists (backups : TextMap Backup) (files : Files) : Prop :=
  ∀ id : String, (backups[id]?).map Prod.fst = files[recommendationFilename id]?

/-- What reading one backup file keeps. -/
def Read (leaf : String × Bytes) (backup : String × Backup) : Prop :=
  recommendationFilename backup.1 = leaf.1 ∧ backup.2.1 = leaf.2

variable {leaves : TextMap Bytes}

theorem readBackups_ok {parsed : Option RollupTransactionManifest}
    {R : String × Bytes → String × Backup → Prop} {total : Nat} {files : List (String × Bytes)}
    (hfiles : ∀ leaf ∈ files, leaf.2.length ≤ byteLimit ∧
      ∃ backup, readBackup env leaves parsed leaf.1 leaf.2 = .ok backup ∧ R leaf backup)
    (htotal : total + (files.map (fun leaf => leaf.2.length)).sum ≤ totalLimit) :
    ∃ found, readBackups env leaves parsed total files = .ok found ∧
      List.Forall₂ R files found := by
  induction files generalizing total with
  | nil => exact ⟨[], rfl, .nil⟩
  | cons leaf files ih =>
    obtain ⟨name, bytes⟩ := leaf
    rw [map_cons, sum_cons] at htotal
    obtain ⟨hbounded, backup, hread, hR⟩ := hfiles _ mem_cons_self
    obtain ⟨found, hfound, hall⟩ := @ih (total + bytes.length)
      (fun leaf hleaf => hfiles leaf (mem_cons_of_mem _ hleaf)) (by
        change total + (bytes.length + _) ≤ _ at htotal
        omega)
    refine ⟨backup :: found, ?_, .cons hR hall⟩
    unfold readBackups
    rw [seq_eq_ok, boundLeaf_ok, seq_eq_ok, refuseInvalid_ok, bind_eq_ok,
      decide_eq_false_iff_not, Nat.not_lt]
    refine ⟨hbounded, ?_, backup, hread, ?_⟩
    · change total + (bytes.length + _) ≤ _ at htotal
      omega
    · rw [hfound]
      rfl

variable {complete : Bool}

theorem Copies.bounds (hjob : job.Sound env) (h : Copies job complete backups) :
    (∀ leaf ∈ backups.toList, leaf.2.length ≤ byteLimit) ∧
      (backups.toList.map (fun leaf => leaf.2.length)).sum ≤ totalLimit ∧
      backups.size ≤ entryLimit + 1 := by
  refine ⟨?_, ?_, ?_⟩
  · intro leaf hleaf
    obtain ⟨-, full, hfull, hstart, -⟩ := h leaf.1 leaf.2 (mem_toList.mp hleaf)
    obtain ⟨record, hcanonical⟩ := hjob.reads.canonical leaf.1 full hfull
    exact Nat.le_trans hstart.length_le hcanonical.bounded
  · refine Nat.le_trans (sum_le (f := id) Function.injective_id ?_) hjob.reads.total
    intro name bytes hbytes
    obtain ⟨-, full, hfull, hstart, -⟩ := h name bytes hbytes
    exact ⟨full, hfull, hstart.length_le⟩
  · refine Nat.le_trans (size_le (f := id) Function.injective_id ?_)
      (Nat.le_trans hjob.reads.size (Nat.le_succ _))
    intro name bytes hbytes
    obtain ⟨-, full, hfull, -⟩ := h name bytes hbytes
    exact ⟨full, hfull⟩

variable {files : Files} {found : List (String × Backup)}

theorem found_nodup (h : List.Forall₂ Read files.toList found) : (found.map Prod.fst).Nodup := by
  have hnames : ∀ {leaves : List (String × Bytes)} {found : List (String × Backup)},
      List.Forall₂ Read leaves found →
        (found.map Prod.fst).map recommendationFilename = leaves.map Prod.fst := by
    intro leaves found hall
    induction hall with
    | nil => rfl
    | cons hread _ ih => rw [map_cons, map_cons, map_cons, ih, hread.1]
  refine List.Nodup.of_map recommendationFilename ?_
  rw [hnames h, toList_keys]
  exact keys_nodup

theorem lists_found (h : List.Forall₂ Read files.toList found) : Lists (.ofList found) files := by
  have hnodup := found_nodup h
  intro id
  apply Option.ext
  intro bytes
  rw [Option.map_eq_some_iff]
  constructor
  · rintro ⟨backup, hbackup, rfl⟩
    rw [get_ofList hnodup] at hbackup
    obtain ⟨leaf, hleaf, hname, hbytes⟩ := forall₂_mem_right h _ hbackup
    change recommendationFilename id = _ at hname
    change backup.1 = _ at hbytes
    rw [hname, hbytes]
    exact mem_toList.mp hleaf
  · intro hfile
    obtain ⟨⟨id', backup⟩, hmem, hname, hbytes⟩ :=
      forall₂_mem_left h (recommendationFilename id, bytes) (mem_toList.mpr hfile)
    obtain rfl := recommendationFilename_injective hname
    exact ⟨backup, (get_ofList hnodup).mpr hmem, hbytes⟩

theorem readBackups_draft (hjob : job.Sound env) (hreads : Reads env job.before inventory)
    {parsed : Option RollupTransactionManifest}
    (hparsed : parsed = none ∨ parsed = some (job.manifest false))
    (hcopies : Copies job complete backups) :
    ∃ found, readBackups env inventory.leaves parsed 0 backups.toList = .ok found ∧
      List.Forall₂ Read backups.toList found := by
  obtain ⟨hbounded, htotal, -⟩ := hcopies.bounds hjob
  refine readBackups_ok ?_ (by rw [Nat.zero_add]; exact htotal)
  rintro ⟨name, bytes⟩ hleaf
  refine ⟨hbounded _ hleaf, ?_⟩
  obtain ⟨htarget, full, hfull, hstart, -⟩ := hcopies name bytes (mem_toList.mp hleaf)
  obtain ⟨entry, hentry, rfl⟩ := hjob.isTarget_iff.mp htarget
  have huncommitted : isCommitted parsed = false := by
    rcases hparsed with rfl | rfl
    · rfl
    · rfl
  -- the original is the only leaf of that name
  have hfind : inventory.leaves.toList.find? (fun leaf =>
      recommendationFilename leaf.1 == recommendationFilename entry.id) = some (entry.id, full) := by
    have hmem : (entry.id, full) ∈ inventory.leaves.toList := by
      rw [mem_toList, hreads.leaves]
      exact hfull
    cases hfound : inventory.leaves.toList.find? (fun leaf =>
        recommendationFilename leaf.1 == recommendationFilename entry.id) with
    | none =>
      have hnone := List.find?_eq_none.mp hfound _ hmem
      simp at hnone
    | some leaf =>
      obtain ⟨id, original⟩ := leaf
      have hid : id = entry.id := by
        have heq := List.find?_some hfound
        exact recommendationFilename_injective (by simpa using heq)
      have horiginal := mem_toList.mp (mem_of_find?_eq_some hfound)
      change inventory.leaves[id]? = some original at horiginal
      rw [hid, hreads.leaves, hfull] at horiginal
      cases horiginal
      rw [hid]
  have hknown : (parsed.isSome && !(selectedEntries parsed).contains
      (recommendationFilename entry.id)) = false := by
    rcases hparsed with rfl | rfl
    · rfl
    · have hget : (selectedEntries (some (job.manifest false)))[recommendationFilename entry.id]? =
          some entry := (selected_get hjob).mpr ⟨hentry, hjob.target hentry⟩
      have hcontains : (selectedEntries (some (job.manifest false))).contains
          (recommendationFilename entry.id) = true := by
        rw [Std.ExtTreeMap.contains_iff_mem, Std.ExtTreeMap.mem_iff_isSome_getElem?, hget]
        rfl
      rw [hcontains]
      rfl
  refine ⟨(entry.id, bytes, none), ?_, rfl, rfl⟩
  simp only [readBackup, huncommitted, Bool.false_eq_true, if_false, draftBackup, hfind]
  rw [seq_eq_ok, refuseInvalid_ok, seq_eq_ok, refuseInvalid_ok]
  exact ⟨hknown, by simpa using hstart, rfl⟩

/-- A backup of a committed removal with the record it holds. -/
def ReadRecord (job : Job) (leaf : String × Bytes) (backup : String × Backup) : Prop :=
  Read leaf backup ∧ ∃ record ∈ job.records, record.id = backup.1 ∧ backup.2.2 = some record

theorem readBackups_committed (hjob : job.Sound env) (inventory : Inventory)
    (hcopies : Copies job true backups) :
    ∃ found, readBackups env inventory.leaves (some (job.manifest true)) 0 backups.toList =
        .ok found ∧ List.Forall₂ (ReadRecord job) backups.toList found := by
  obtain ⟨hbounded, htotal, -⟩ := hcopies.bounds hjob
  refine readBackups_ok ?_ (by rw [Nat.zero_add]; exact htotal)
  rintro ⟨name, bytes⟩ hleaf
  refine ⟨hbounded _ hleaf, ?_⟩
  obtain ⟨htarget, full, hfull, -, hcomplete⟩ := hcopies name bytes (mem_toList.mp hleaf)
  obtain rfl := hcomplete rfl
  obtain ⟨entry, hentry, rfl⟩ := hjob.isTarget_iff.mp htarget
  obtain ⟨record, hcanonical⟩ := hjob.reads.canonical _ bytes hfull
  have hid : record.id = entry.id := (recommendationFilename_injective hcanonical.filename).symm
  have hget : (selectedEntries (some (job.manifest true)))[recommendationFilename entry.id]? =
      some entry := (selected_get hjob).mpr ⟨hentry, hjob.target hentry⟩
  have hdigest : entry.oldSha256 = some (env.digests.sha256 bytes) := by
    obtain ⟨bytes', hbytes', heq⟩ := hjob.entry entry hentry
    rw [hfull] at hbytes'
    cases hbytes'
    rw [heq]
    rfl
  have hparse : parseBackup env bytes entry.id = .ok record := by
    have hstrict : parseStrictJson env.parseRecord bytes byteLimit = some record := by
      rw [parseStrictJson, if_neg (Nat.not_lt.mpr hcanonical.bounded), hcanonical.parsed]
    simp only [parseBackup, hstrict]
    rw [seq_eq_ok, asInvalid_ok, seq_eq_ok, refuseInvalid_ok]
    exact ⟨hcanonical.valid, by simpa using hid, rfl⟩
  refine ⟨(entry.id, bytes, some record), ?_, ⟨rfl, rfl⟩, record, ?_, hid, rfl⟩
  · have hcommitted : isCommitted (some (job.manifest true)) = true := rfl
    simp only [readBackup, hcommitted, if_true, committedBackup, hget]
    rw [seq_eq_ok, refuseInvalid_ok, bind_eq_ok]
    exact ⟨by simpa using hdigest, record, hparse, rfl⟩
  · refine (hjob.reads.mem record).mpr ⟨bytes, ?_, hcanonical.parsed⟩
    rw [hid]
    exact hfull

variable {backups : TextMap Backup}

theorem expectedManifest_draft (hjob : job.Sound env) (hreads : Reads env job.before inventory)
    (hsome : job.entries ≠ []) (hlists : Lists backups job.saved) :
    expectedManifest env inventory.leaves none backups = .ok (job.manifest false) := by
  have hget : ∀ (id : String) (backup : Backup), backups[id]? = some backup →
      id ∈ job.entries.map (·.id) ∧ job.before[recommendationFilename id]? = some backup.1 := by
    intro id backup hbackup
    have hsaved := hlists id
    rw [hbackup, Job.saved_get] at hsaved
    split at hsaved
    · rename_i htarget
      obtain ⟨entry, hentry, hname⟩ := hjob.isTarget_iff.mp htarget
      refine ⟨?_, hsaved.symm⟩
      rw [← recommendationFilename_injective hname]
      exact mem_map_of_mem hentry
    · cases hsaved
  have hkeys : backups.keys = job.entries.map (·.id) := by
    refine List.Perm.eq_of_pairwise (fun a b _ _ hab hba => absurd hab (lt_asymm hba))
      keys_sorted hjob.sorted ?_
    refine (perm_ext_iff_of_nodup keys_nodup hjob.ids_nodup).mpr ?_
    intro id
    constructor
    · intro hid
      obtain ⟨backup, hbackup⟩ := TextMap.mem_keys.mp hid
      exact (hget id backup hbackup).1
    · intro hid
      obtain ⟨entry, hentry, rfl⟩ := mem_map.mp hid
      obtain ⟨bytes, hbytes, -⟩ := hjob.entry entry hentry
      have hsaved := hlists entry.id
      rw [hjob.saved_entry hentry, hbytes, Option.map_eq_some_iff] at hsaved
      obtain ⟨backup, hbackup, -⟩ := hsaved
      exact TextMap.mem_keys.mpr ⟨backup, hbackup⟩
  have hentries : backups.toList.map (fun backup => deletionEntry env backup.1 backup.2.1) =
      job.entries := by
    have hone : ∀ backup ∈ backups.toList, deletionEntry env backup.1 backup.2.1 =
        deletionEntry env backup.1 ((job.before[recommendationFilename backup.1]?).getD []) := by
      intro backup hbackup
      rw [(hget _ _ (mem_toList.mp hbackup)).2]
      rfl
    have hother : ∀ entry ∈ job.entries, deletionEntry env entry.id
        ((job.before[recommendationFilename entry.id]?).getD []) = entry := by
      intro entry hentry
      obtain ⟨bytes, hbytes, heq⟩ := hjob.entry entry hentry
      rw [hbytes]
      exact heq.symm
    calc backups.toList.map (fun backup => deletionEntry env backup.1 backup.2.1)
        = backups.keys.map (fun id => deletionEntry env id
            ((job.before[recommendationFilename id]?).getD [])) := by
          rw [← toList_keys, map_map]
          exact map_congr_left hone
      _ = job.entries := by
          rw [hkeys, map_map]
          exact (map_congr_left hother).trans (map_id _)
  have hnotEmpty : backups.isEmpty = false := by
    rw [Bool.eq_false_iff]
    intro hempty
    rw [Std.ExtTreeMap.isEmpty_iff.mp hempty, keys_empty] at hkeys
    exact hsome (map_eq_nil_iff.mp hkeys.symm)
  have hcompleted : completedBackups inventory.leaves backups = true := by
    rw [completedBackups, all_eq_true]
    intro backup hbackup
    rw [hreads.leaves, (hget _ _ (mem_toList.mp hbackup)).2]
    simp
  simp only [expectedManifest]
  rw [seq_eq_ok, refuseInvalid_ok, seq_eq_ok, refuseInvalid_ok, hentries]
  exact ⟨hnotEmpty, by rw [hcompleted]; rfl, rfl⟩

theorem checkTemporary_draft (hjob : job.Sound env) {parsed : Option RollupTransactionManifest}
    (huncommitted : isCommitted parsed = false)
    (hexpected : expectedManifest env leaves parsed backups = .ok (job.manifest committed))
    {written : Bytes} (hwritten : written <+: job.manifestBytes committed) :
    checkTemporary env leaves parsed backups (some written) = .ok () := by
  simp only [checkTemporary]
  rw [seq_eq_ok, refuseInvalid_ok, bind_eq_ok]
  refine ⟨huncommitted, _, hexpected, ?_⟩
  rw [bind_eq_ok]
  refine ⟨job.manifestBytes committed, ?_, ?_⟩
  · rw [asInvalid_ok, boundedManifest_ok]
    exact ⟨hjob.encoded committed, hjob.bounded committed⟩
  · rw [refuseInvalid_ok]
    simpa using hwritten

/-! ### The records under a committed manifest -/

/-- Every entry of `old` is a record of the removal, under its id. -/
def Recorded (job : Job) (old : TextMap Recommendation) : Prop :=
  ∀ (id : String) (record : Recommendation), old[id]? = some record →
    record ∈ job.records ∧ record.id = id

variable {entries : List RollupTransactionEntry}

theorem reconstruct_ok {old : TextMap Recommendation} (hold : Recorded job old)
    (hentries : ∀ entry ∈ entries, targetUnchanged env leaves entry = true ∧
      ∃ (bytes : Bytes) (record : Recommendation), backups[entry.id]? = some (bytes, some record) ∧
        record ∈ job.records ∧ record.id = entry.id) :
    ∃ next, reconstruct env leaves backups old entries = .ok next ∧ Recorded job next ∧
      ∀ id : String, (old[id]? ≠ none ∨ id ∈ entries.map (·.id)) → next[id]? ≠ none := by
  induction entries generalizing old with
  | nil => exact ⟨old, rfl, hold, by simp⟩
  | cons entry entries ih =>
    obtain ⟨hunchanged, bytes, record, hbackup, hrecord, hid⟩ := hentries entry mem_cons_self
    have hinsert : Recorded job (old.insert entry.id record) := by
      intro id found hfound
      rw [get_insert] at hfound
      split at hfound
      · rename_i heq
        cases hfound
        exact ⟨hrecord, hid.trans heq⟩
      · exact hold id found hfound
    obtain ⟨next, hnext, hrecorded, hpresent⟩ :=
      ih hinsert (fun x hx => hentries x (mem_cons_of_mem _ hx))
    refine ⟨next, ?_, hrecorded, ?_⟩
    · simp only [reconstruct, hbackup]
      rw [seq_eq_ok, refuseInvalid_ok, hunchanged]
      exact ⟨rfl, hnext⟩
    · intro id hid'
      refine hpresent id ?_
      by_cases heq : entry.id = id
      · left
        rw [heq, get_insert_self]
        simp
      · rcases hid' with hin | hin
        · left
          rw [get_insert_ne heq]
          exact hin
        · right
          rw [map_cons, mem_cons] at hin
          exact hin.resolve_left (Ne.symm heq)

theorem record_kept_or_target (hjob : job.Sound env) {record : Recommendation}
    (h : record ∈ job.records) : job.kept[recommendationFilename record.id]? ≠ none ∨
      record.id ∈ job.entries.map (·.id) := by
  obtain ⟨bytes, hbytes, -⟩ := (hjob.reads.mem record).mp h
  by_cases htarget : job.isTarget (recommendationFilename record.id) = true
  · obtain ⟨entry, hentry, hname⟩ := hjob.isTarget_iff.mp htarget
    right
    rw [← recommendationFilename_injective hname]
    exact mem_map_of_mem hentry
  · left
    rw [Job.kept_get, if_neg htarget, hbytes]
    simp

theorem checkReconstructed_ok (hjob : job.Sound env) (hreads : Reads env files inventory)
    (hpart : Part files job.before)
    (hkept : Part job.kept files) (hlists : Lists backups job.saved)
    (hrecords : ∀ (id : String) (backup : Backup), backups[id]? = some backup →
      ∃ record ∈ job.records, record.id = id ∧ backup.2 = some record)
    (hmem : ∀ entry, entry ∈ entries ↔ entry ∈ job.entries) :
    checkReconstructed env inventory backups entries = .ok () := by
  have hlive : ∀ record ∈ inventory.records, record ∈ job.records := by
    intro record hrecord
    obtain ⟨bytes, hbytes, hparsed⟩ := (hreads.mem record).mp hrecord
    exact (hjob.reads.mem record).mpr ⟨bytes, hpart _ _ hbytes, hparsed⟩
  have hstart : ∀ (id : String) (record : Recommendation),
      (Std.ExtTreeMap.ofList (inventory.records.map (fun record => (record.id, record))) :
        TextMap Recommendation)[id]? = some record ↔ record ∈ inventory.records ∧ record.id = id := by
    intro id record
    rw [get_ofList (by rw [map_map]; exact hreads.ids), mem_map]
    constructor
    · rintro ⟨found, hfound, heq⟩
      cases heq
      exact ⟨hfound, rfl⟩
    · rintro ⟨hfound, rfl⟩
      exact ⟨record, hfound, rfl⟩
  have hentries : ∀ entry ∈ entries, targetUnchanged env inventory.leaves entry = true ∧
      ∃ (bytes : Bytes) (record : Recommendation), backups[entry.id]? = some (bytes, some record) ∧
        record ∈ job.records ∧ record.id = entry.id := by
    intro entry hentry
    rw [hmem] at hentry
    obtain ⟨bytes, hbytes, heq⟩ := hjob.entry entry hentry
    have hdigest : entry.oldSha256 = some (env.digests.sha256 bytes) := by
      rw [heq]
      rfl
    refine ⟨?_, ?_⟩
    · unfold targetUnchanged
      rw [hreads.leaves]
      cases hfile : files[recommendationFilename entry.id]? with
      | none => rfl
      | some found =>
        rw [hpart _ _ hfile] at hbytes
        cases hbytes
        simpa using hdigest
    · have hsaved := hlists entry.id
      rw [hjob.saved_entry hentry, hbytes, Option.map_eq_some_iff] at hsaved
      obtain ⟨⟨found, parsed⟩, hbackup, -⟩ := hsaved
      obtain ⟨record, hrecord, hid, hparsed⟩ := hrecords _ _ hbackup
      change parsed = some record at hparsed
      rw [hparsed] at hbackup
      exact ⟨found, record, hbackup, hrecord, hid⟩
  obtain ⟨old, hold, hrecorded, hpresent⟩ := reconstruct_ok
    (fun id record h => ⟨hlive record ((hstart id record).mp h).1, ((hstart id record).mp h).2⟩)
    hentries
  -- the old records are put together again
  have hall : ∀ record ∈ job.records, old[record.id]? = some record := by
    intro record hrecord
    have hne : old[record.id]? ≠ none := by
      refine hpresent record.id ?_
      rcases record_kept_or_target hjob hrecord with hfile | htarget
      · left
        obtain ⟨bytes, hbytes, hparsed⟩ := (hjob.reads.mem record).mp hrecord
        obtain ⟨kept, hkeptBytes⟩ := Option.ne_none_iff_exists'.mp hfile
        obtain rfl : kept = bytes :=
          Option.some.inj ((Job.kept_part _ _ hkeptBytes).symm.trans hbytes)
        have hread := (hreads.mem record).mpr ⟨kept, hkept _ _ hkeptBytes, hparsed⟩
        rw [(hstart record.id record).mpr ⟨hread, rfl⟩]
        simp
      · right
        obtain ⟨entry, hentry, hid⟩ := mem_map.mp htarget
        exact mem_map.mpr ⟨entry, (hmem entry).mpr hentry, hid⟩
    obtain ⟨found, hfound⟩ := Option.ne_none_iff_exists'.mp hne
    obtain ⟨hmemFound, hid⟩ := hrecorded _ _ hfound
    rw [hfound, inj_on_of_nodup_map hjob.reads.ids hmemFound hrecord hid]
  have hfiles : ∀ (id : String) (record : Recommendation), old[id]? = some record →
      ∃ bytes : Bytes, job.before[recommendationFilename id]? = some bytes ∧
        recordSize inventory.leaves backups record.id ≤ bytes.length := by
    intro id record hrecord
    obtain ⟨hmemRecord, rfl⟩ := hrecorded _ _ hrecord
    obtain ⟨bytes, hbytes, -⟩ := (hjob.reads.mem record).mp hmemRecord
    refine ⟨bytes, hbytes, ?_⟩
    unfold recordSize
    rw [hreads.leaves]
    cases hfile : files[recommendationFilename record.id]? with
    | some found =>
      rw [hpart _ _ hfile] at hbytes
      cases hbytes
      exact Nat.le_refl _
    | none =>
      have hsaved := hlists record.id
      cases hbackup : backups[record.id]? with
      | none => exact Nat.zero_le _
      | some backup =>
        rw [hbackup, Job.saved_get] at hsaved
        split at hsaved
        · rw [hbytes] at hsaved
          cases hsaved
          exact Nat.le_refl _
        · cases hsaved
  have hsize : old.size ≤ entryLimit := by
    refine Nat.le_trans (size_le recommendationFilename_injective ?_) hjob.reads.size
    intro id record hrecord
    obtain ⟨bytes, hbytes, -⟩ := hfiles id record hrecord
    exact ⟨bytes, hbytes⟩
  have htotal : (old.toList.map (fun record =>
      recordSize inventory.leaves backups record.2.id)).sum ≤ totalLimit :=
    Nat.le_trans (sum_le recommendationFilename_injective hfiles) hjob.reads.total
  have hids : (old.toList.map Prod.snd).map (·.id) = old.keys := by
    rw [← toList_keys, map_map]
    refine map_congr_left ?_
    intro p hp
    exact (hrecorded _ _ (mem_toList.mp hp)).2
  have hgraph : Graph.Ok env.digests (old.toList.map Prod.snd) := by
    refine hjob.graph.congr (by rw [hids]; exact keys_nodup) ?_
    intro record
    rw [mem_map]
    constructor
    · intro hrecord
      exact ⟨(record.id, record), mem_toList.mpr (hall record hrecord), rfl⟩
    · rintro ⟨p, hp, rfl⟩
      exact (hrecorded _ _ (mem_toList.mp hp)).1
  unfold checkReconstructed
  rw [bind_eq_ok]
  refine ⟨old, hold, ?_⟩
  rw [seq_eq_ok, refuseInvalid_ok, asInvalid_ok, validateGraphRecords_ok_iff]
  refine ⟨?_, hgraph⟩
  rw [Bool.or_eq_false_iff, decide_eq_false_iff_not, decide_eq_false_iff_not, Nat.not_lt, Nat.not_lt]
  exact ⟨hsize, htotal⟩

theorem remaining_ok (hjob : job.Sound env) (hreads : Reads env files inventory)
    (hpart : Part files job.before)
    (hkept : Part job.kept files) (hmem : ∀ entry, entry ∈ entries ↔ entry ∈ job.entries) :
    Graph.Ok env.digests (inventory.records.filter (fun record =>
      !entries.any (fun entry => entry.id == record.id))) := by
  have hkeeps : ∀ record : Recommendation,
      (!entries.any (fun entry => entry.id == record.id)) = job.keeps record := by
    intro record
    unfold Job.keeps
    congr 1
    rw [Bool.eq_iff_iff, any_eq_true, any_eq_true]
    simp only [hmem]
  simp only [hkeeps]
  refine hjob.remaining.congr (hreads.ids.sublist (filter_sublist.map _)) ?_
  intro record
  rw [mem_filter, mem_filter]
  constructor
  · rintro ⟨hrecord, hkeep⟩
    refine ⟨?_, hkeep⟩
    obtain ⟨bytes, hbytes, hparsed⟩ := (hjob.reads.mem record).mp hrecord
    refine (hreads.mem record).mpr ⟨bytes, hkept _ _ ?_, hparsed⟩
    rw [Job.kept_get, if_neg, hbytes]
    intro htarget
    obtain ⟨entry, hentry, hname⟩ := hjob.isTarget_iff.mp htarget
    have hno : job.entries.any (fun entry => entry.id == record.id) = false := by
      simpa [Job.keeps] using hkeep
    rw [any_eq_false] at hno
    exact hno entry hentry (by simpa using recommendationFilename_injective hname)
  · rintro ⟨hrecord, hkeep⟩
    obtain ⟨bytes, hbytes, hparsed⟩ := (hreads.mem record).mp hrecord
    exact ⟨(hjob.reads.mem record).mpr ⟨bytes, hpart _ _ hbytes, hparsed⟩, hkeep⟩

theorem kept_graph (hjob : job.Sound env) (hreads : Reads env job.kept inventory) :
    Graph.Ok env.digests inventory.records := by
  have hgraph := remaining_ok hjob hreads Job.kept_part (fun _ _ h => h) (fun _ => Iff.rfl)
  rw [filter_eq_self.mpr] at hgraph
  · exact hgraph
  · intro record hrecord
    obtain ⟨bytes, hbytes, -⟩ := (hreads.mem record).mp hrecord
    rw [Bool.not_eq_true', any_eq_false]
    intro entry hentry heq
    rw [← of_decide_eq_true heq, hjob.kept_entry hentry] at hbytes
    cases hbytes

/-! ### Validating the transaction -/

theorem boundOptional_ok {found : Option Bytes}
    (h : ∀ bytes, found = some bytes → bytes.length ≤ byteLimit) : boundOptional found = .ok () := by
  cases found with
  | none => rfl
  | some bytes => exact boundLeaf_ok.mpr (h bytes rfl)

theorem toList_length_le {α : Type} (found : Option α) : found.toList.length ≤ 1 := by
  cases found <;> simp

variable {t : Transaction}

theorem checkNames_ok (hstaged : t.staged = none ∨ t.staged = some ∅) (hothers : t.others = [])
    (hmanifest : ∀ bytes, t.manifest = some bytes → bytes.length ≤ byteLimit)
    (htemporary : ∀ bytes, t.temporary = some bytes → bytes.length ≤ byteLimit) :
    checkNames t = .ok () := by
  have hempty : t.staged.getD ∅ = ∅ := by
    rcases hstaged with h | h
    · rw [h]; rfl
    · rw [h]; rfl
  have hm := toList_length_le t.manifest
  have ht := toList_length_le t.temporary
  have hb := toList_length_le t.backups
  have hs := toList_length_le t.staged
  unfold checkNames
  rw [seq_eq_ok, seq_eq_ok, seq_eq_ok, seq_eq_ok, seq_eq_ok, boundNames_ok, refuseInvalid_ok,
    boundNames_ok, refuseInvalid_ok, hempty, hothers]
  refine ⟨?_, rfl, ?_, ?_, boundOptional_ok hmanifest, boundOptional_ok htemporary⟩
  · rw [length_nil]
    unfold entryLimit
    omega
  · rw [Std.ExtTreeMap.size_empty]
    exact Nat.zero_le _
  · rw [Std.ExtTreeMap.isEmpty_empty]
    rfl

structure Validated (job : Job) (inventory : Inventory) (t : Transaction) (recovery : Recovery) :
    Prop where
  name : recovery.name = job.name
  transaction : recovery.transaction = t
  leaves : recovery.leaves = inventory.leaves
  backups : Lists recovery.backups (t.backups.getD ∅)
  entries : recovery.committed = true → recovery.entries = job.selected true

theorem validateTransaction_ok {parsed : Option RollupTransactionManifest}
    (hnames : checkNames t = .ok ()) (hmanifest : readManifest env t.manifest = .ok parsed)
    (hsize : (t.backups.getD ∅).size ≤ entryLimit + 1)
    (hfound : readBackups env inventory.leaves parsed 0 (t.backups.getD ∅).toList = .ok found)
    (htemporary : checkTemporary env inventory.leaves parsed (.ofList found) t.temporary = .ok ())
    (hchecked : (if isCommitted parsed then checkCommitted env inventory (.ofList found)
        ((selectedEntries parsed).toList.map Prod.snd)
      else checkUncommitted env inventory ((selectedEntries parsed).toList.map Prod.snd)) = .ok ()) :
    validateTransaction env inventory job.name t = .ok ⟨job.name, t, isCommitted parsed,
      inventory.leaves, (selectedEntries parsed).toList.map Prod.snd, .ofList found⟩ := by
  unfold validateTransaction
  rw [seq_eq_ok, bind_eq_ok]
  refine ⟨hnames, parsed, hmanifest, ?_⟩
  rw [seq_eq_ok, boundNames_ok, bind_eq_ok]
  refine ⟨hsize, found, hfound, ?_⟩
  rw [seq_eq_ok]
  refine ⟨htemporary, ?_⟩
  cases hcommitted : isCommitted parsed with
  | true =>
    rw [hcommitted, if_pos rfl] at hchecked
    simp only [if_true]
    rw [hchecked]
    rfl
  | false =>
    rw [hcommitted, if_neg (by simp)] at hchecked
    simp only [Bool.false_eq_true, if_false]
    rw [hchecked]
    rfl

theorem Clean.parsed (hjob : job.Sound env)
    (h : t.manifest = none ∨ t.manifest = some (job.manifestBytes committed)) :
    ∃ parsed, readManifest env t.manifest = .ok parsed ∧
      (parsed = none ∨ parsed = some (job.manifest committed)) := by
  rcases h with h | h
  · exact ⟨none, by rw [h]; rfl, .inl rfl⟩
  · exact ⟨some (job.manifest committed), by rw [h]; exact readManifest_job hjob committed, .inr rfl⟩

theorem manifest_bounded (hjob : job.Sound env) {found : Option Bytes}
    (h : found = none ∨ found = some (job.manifestBytes committed)) :
    ∀ bytes, found = some bytes → bytes.length ≤ byteLimit := by
  rintro bytes rfl
  rcases h with h | h
  · cases h
  · cases h
    exact hjob.bounded committed

theorem copies_empty (complete : Bool) : Copies job complete ∅ := by
  intro name bytes h
  rw [get_empty] at h
  cases h

theorem Clean.copies (h : Clean job committed t) : Copies job committed (t.backups.getD ∅) := by
  cases hb : t.backups with
  | none => exact copies_empty committed
  | some backups => exact h.backups backups hb

theorem checkUncommitted_ok (hgraph : Graph.Ok env.digests inventory.records)
    (hentries : ∀ entry ∈ entries, ∃ bytes : Bytes, inventory.leaves[entry.id]? = some bytes ∧
      entry = deletionEntry env entry.id bytes) :
    checkUncommitted env inventory entries = .ok () := by
  unfold checkUncommitted
  rw [seq_eq_ok, asInvalid_ok, validateGraphRecords_ok_iff, refuseInvalid_ok, any_eq_false]
  refine ⟨hgraph, ?_⟩
  intro entry hentry
  obtain ⟨bytes, hbytes, heq⟩ := hentries entry hentry
  rw [hbytes, heq]
  simp [deletionEntry]

theorem selected_none : (selectedEntries none).toList.map Prod.snd = [] := by
  have hnone : selectedEntries none = ∅ := Std.ExtTreeMap.ofList_nil
  rw [hnone, toList_empty]
  rfl

theorem validate_draft (hjob : job.Sound env) (hreads : Reads env job.before inventory)
    (h : Clean job false t ∨ Drafting job t) :
    ∃ recovery, validateTransaction env inventory job.name t = .ok recovery ∧
      recovery.committed = false ∧ Validated job inventory t recovery := by
  have hclean : Clean job false { t with temporary := none } := by
    rcases h with h | h
    · exact ⟨rfl, h.manifest, h.backups, h.staged, h.others, h.vouched⟩
    · exact h.clean
  obtain ⟨parsed, hmanifest, hparsed⟩ := Clean.parsed hjob hclean.manifest
  have huncommitted : isCommitted parsed = false := by
    rcases hparsed with rfl | rfl
    · rfl
    · rfl
  have hcopies : Copies job false (t.backups.getD ∅) := hclean.copies
  obtain ⟨found, hfound, hall⟩ := readBackups_draft hjob hreads hparsed hcopies
  have hgraph : Graph.Ok env.digests inventory.records := by
    refine hjob.graph.congr hreads.ids ?_
    intro record
    rw [hreads.mem]
    exact hjob.reads.mem record
  have hentries : ∀ entry ∈ (selectedEntries parsed).toList.map Prod.snd, ∃ bytes : Bytes,
      inventory.leaves[entry.id]? = some bytes ∧ entry = deletionEntry env entry.id bytes := by
    intro entry hentry
    rcases hparsed with rfl | rfl
    · rw [selected_none] at hentry
      cases hentry
    · obtain ⟨bytes, hbytes, heq⟩ := hjob.entry entry ((mem_selected hjob).mp hentry)
      exact ⟨bytes, by rw [hreads.leaves]; exact hbytes, heq⟩
  -- the temporary manifest, when there is one, is the beginning of the next manifest
  have htemporary : checkTemporary env inventory.leaves parsed (.ofList found) t.temporary = .ok () ∧
      ∀ bytes, t.temporary = some bytes → bytes.length ≤ byteLimit := by
    rcases h with h | ⟨hentriesSome, -, written, hwritten, ⟨hnone, hstart, hsaved⟩ |
      ⟨hsome, hstart⟩⟩
    · rw [h.temporary]
      exact ⟨rfl, by simp⟩
    · have hnoneParsed : parsed = none := by
        rw [hnone] at hmanifest
        cases hmanifest
        rfl
      subst hnoneParsed
      rw [hsaved] at hall
      have hexpected := expectedManifest_draft hjob hreads hentriesSome (lists_found hall)
      rw [hwritten]
      refine ⟨checkTemporary_draft hjob rfl hexpected hstart, ?_⟩
      rintro bytes ⟨⟩
      exact Nat.le_trans hstart.length_le (hjob.bounded false)
    · have hsomeParsed : parsed = some (job.manifest false) := by
        rw [hsome, readManifest_job hjob] at hmanifest
        cases hmanifest
        rfl
      subst hsomeParsed
      rw [hwritten]
      have hexpected : expectedManifest env inventory.leaves (some (job.manifest false))
          (.ofList found) = .ok (job.manifest true) := rfl
      refine ⟨checkTemporary_draft hjob rfl hexpected hstart, ?_⟩
      rintro bytes ⟨⟩
      exact Nat.le_trans hstart.length_le (hjob.bounded true)
  have hnames : checkNames t = .ok () := checkNames_ok hclean.staged hclean.others
    (manifest_bounded hjob hclean.manifest) htemporary.2
  refine ⟨_, validateTransaction_ok hnames hmanifest (hcopies.bounds hjob).2.2 hfound htemporary.1
    ?_, huncommitted, rfl, rfl, rfl, lists_found hall, ?_⟩
  · rw [huncommitted, if_neg (by simp)]
    exact checkUncommitted_ok hgraph hentries
  · intro hc
    rw [huncommitted] at hc
    cases hc

theorem validate_unmarked (job : Job) (hgraph : Graph.Ok env.digests inventory.records)
    (hmanifest : t.manifest = none) (htemporary : t.temporary = none) (hbackups : t.backups = none)
    (hstaged : t.staged = none ∨ t.staged = some ∅) (hothers : t.others = []) :
    ∃ recovery, validateTransaction env inventory job.name t = .ok recovery ∧
      recovery.committed = false ∧ Validated job inventory t recovery := by
  have hnames := checkNames_ok hstaged hothers (by simp [hmanifest]) (by simp [htemporary])
  have hread : readManifest env t.manifest = .ok none := by
    rw [hmanifest]
    rfl
  have hfound : readBackups env inventory.leaves none 0 (t.backups.getD ∅).toList = .ok [] := by
    rw [hbackups, Option.getD_none, toList_empty]
    rfl
  refine ⟨_, validateTransaction_ok hnames hread ?_ hfound ?_ ?_, rfl, rfl, rfl, rfl, ?_, ?_⟩
  · rw [hbackups, Option.getD_none, Std.ExtTreeMap.size_empty]
    exact Nat.zero_le _
  · rw [htemporary]
    rfl
  · refine checkUncommitted_ok hgraph ?_
    rw [selected_none]
    simp
  · intro id
    rw [hbackups, Option.getD_none, get_empty, Std.ExtTreeMap.ofList_nil, get_empty]
    rfl
  · intro hc
    cases hc

/-- Under a committed manifest the transaction is accepted with its backups complete
or every target gone. -/
theorem validate_committed (hjob : job.Sound env) (hreads : Reads env files inventory)
    (hpart : Part files job.before)
    (hkept : Part job.kept files) (hclean : Clean job true t)
    (hmanifest : t.manifest = some (job.manifestBytes true))
    (hbackups : t.backups = some job.saved ∨ files = job.kept) :
    ∃ recovery, validateTransaction env inventory job.name t = .ok recovery ∧
      recovery.committed = true ∧ Validated job inventory t recovery := by
  have hread : readManifest env t.manifest = .ok (some (job.manifest true)) := by
    rw [hmanifest]
    exact readManifest_job hjob true
  have hcopies : Copies job true (t.backups.getD ∅) := hclean.copies
  obtain ⟨found, hfound, hall⟩ := readBackups_committed hjob inventory hcopies
  have hplain : List.Forall₂ Read (t.backups.getD ∅).toList found := hall.imp (fun _ _ h => h.1)
  have hnames := checkNames_ok hclean.staged hclean.others
    (manifest_bounded hjob hclean.manifest) (by rw [hclean.temporary]; simp)
  refine ⟨_, validateTransaction_ok hnames hread (hcopies.bounds hjob).2.2 hfound
    (by rw [hclean.temporary]; rfl) ?_, rfl, rfl, rfl, rfl, lists_found hplain, fun _ => rfl⟩
  have hmem : ∀ entry, entry ∈ job.selected true ↔ entry ∈ job.entries := fun _ => mem_selected hjob
  change checkCommitted env inventory (.ofList found) (job.selected true) = .ok ()
  have hremaining := asInvalid_ok.mpr
    (validateGraphRecords_ok_iff.mpr (remaining_ok hjob hreads hpart hkept hmem))
  unfold checkCommitted
  split
  · exact hremaining
  · rename_i hpresent
    rcases hbackups with hsaved | rfl
    · rw [hsaved] at hplain hall
      rw [checkReconstructed_ok hjob hreads hpart hkept (lists_found hplain) ?_ hmem]
      · exact hremaining
      · intro id backup hbackup
        rw [get_ofList (found_nodup hplain)] at hbackup
        obtain ⟨leaf, -, -, hrecord⟩ := forall₂_mem_right hall _ hbackup
        exact hrecord
    · -- with every target gone there is nothing to put together
      refine absurd ?_ hpresent
      rw [all_eq_true]
      intro entry hentry
      have hnone : inventory.leaves[entry.id]? = none := by
        rw [hreads.leaves]
        exact hjob.kept_entry ((hmem entry).mp hentry)
      rw [Bool.not_eq_true', Std.ExtTreeMap.contains_eq_isSome_getElem?, hnone]
      rfl

theorem sameLeaves_of_reads {inventory' : Inventory} (h : Reads env files inventory)
    (h' : Reads env files inventory') : sameLeaves inventory.leaves inventory'.leaves = true := by
  have hsame : inventory.leaves = inventory'.leaves := by
    apply TextMap.ext
    intro id
    rw [h.leaves, h'.leaves]
  unfold sameLeaves
  rw [hsame, Bool.and_eq_true, all_eq_true]
  refine ⟨by simp, ?_⟩
  intro leaf hleaf
  rw [mem_toList.mp hleaf]
  simp

/-- `recover_expected` may expect the leaves of the original files. -/
def Expects (job : Job) (files : Files) (expected : Option (TextMap Bytes)) : Prop :=
  expected = none ∨ (expected = some job.removal.inventory.leaves ∧ files = job.before)

theorem readExpected_ok (hjob : job.Sound env) {expected : Option (TextMap Bytes)}
    (hexpected : Expects job files expected)
    (hpart : Part files job.before) :
    ∃ inventory, readExpected env expected files = .ok inventory ∧ Reads env files inventory := by
  obtain ⟨inventory, hread⟩ := hjob.reads.part hpart
  have hreads := readRecords_reads hread
  refine ⟨inventory, ?_, hreads⟩
  unfold readExpected
  rw [bind_eq_ok]
  refine ⟨inventory, asInvalid_ok.mpr hread, ?_⟩
  rw [seq_eq_ok, refuseInvalid_ok]
  refine ⟨?_, rfl⟩
  rcases hexpected with rfl | ⟨rfl, rfl⟩
  · rfl
  · rw [Option.all_some, sameLeaves_of_reads hreads hjob.reads]
    rfl

theorem pendingTransaction_ok (hjob : job.Sound env) (t : Transaction) :
    pendingTransaction env ((∅ : TextMap Transaction).insert job.name t) =
      .ok (some (job.name, t)) := by
  obtain ⟨uuid, hname, huuid⟩ := hjob.name
  have hchars : job.name.toList = 't' :: 'x' :: '-' :: uuid.toList := by
    rw [hname, String.toList_append]
    rfl
  have hsize : ((∅ : TextMap Transaction).insert job.name t).size ≤ entryLimit + 1 := by
    rw [← Std.ExtTreeMap.length_toList, toList_singleton]
    unfold entryLimit
    simp
  unfold pendingTransaction
  rw [seq_eq_ok, boundNames_ok, toList_singleton]
  refine ⟨hsize, ?_⟩
  simp only [hchars, String.ofList_toList]
  rw [seq_eq_ok, refuseInvalid_ok]
  exact ⟨by rw [huuid]; rfl, rfl⟩

end validation

end Orkworksd.Taskmaster.Deletion
