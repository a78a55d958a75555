import Orkworksd.Lib.Pairwise
import Orkworksd.Taskmaster.DeletionJournal
import Orkworksd.Taskmaster.Lineage

/- What a prepared removal knows.

   `Reads` says what reading the record files has established, and that any part of
   them can be read as well. `closed_deletionGraphIds` and `graph_remove`: what a
   removal takes with it is closed under the graph's references, so what is left is a
   valid graph. A `Job` is one removal with its transaction directory and the files
   it started from; `Job.Sound` collects what `prepare_session_removal` has
   established of it (`removalJob_sound`). -/
namespace Orkworksd.Taskmaster.Deletion
open Lib List TextMap

variable {ids : Finset String}

variable {name : String}

/-! ## Checks -/

theorem refuseInvalid_ok {condition : Bool} {message : String} :
    refuseInvalid condition message = .ok () ↔ condition = false := by
  cases condition <;> simp [refuseInvalid]

theorem asInvalid_ok {α : Type} {result : Except StoreError α} {a : α} :
    asInvalid result = .ok a ↔ result = .ok a := by
  cases result <;> simp [asInvalid, Except.mapError]

theorem boundNames_ok {entries : Nat} : boundNames entries = .ok () ↔ entries ≤ entryLimit + 1 := by
  rw [boundNames, refuseInvalid_ok, decide_eq_false_iff_not, Nat.not_lt]

theorem boundLeaf_ok {bytes : Bytes} : boundLeaf bytes = .ok () ↔ bytes.length ≤ byteLimit := by
  rw [boundLeaf, refuseInvalid_ok, decide_eq_false_iff_not, Nat.not_lt]

/-! ## Reading the records -/

section reading
variable {env : Env} {files : Files} {inventory : Inventory}

structure Canonical (env : Env) (name : String) (bytes : Bytes) (record : Recommendation) :
    Prop where
  json : ".json".toList.isSuffixOf name.toList = true
  bounded : bytes.length ≤ byteLimit
  parsed : env.parseRecord bytes = some record
  valid : validateRecommendation env.digests record = .ok ()
  filename : name = recommendationFilename record.id

variable {total : Nat} {bytes : Bytes} {record : Recommendation}

theorem readEntry_ok : readEntry env total name bytes = .ok record ↔
      Canonical env name bytes record ∧ total + bytes.length ≤ totalLimit := by
  unfold readEntry
  constructor
  · intro h
    split at h
    · cases h
    · rename_i hjson
      split at h
      · cases h
      · rename_i hbounded
        split at h
        · cases h
        · rename_i htotal
          split at h
          · cases h
          · rename_i parsed hparsed
            rw [parseStrictJson, if_neg hbounded] at hparsed
            rw [seq_eq_ok, seq_eq_ok, refuseInvalid_ok] at h
            obtain ⟨hvalid, hname, hrecord⟩ := h
            cases hrecord
            exact ⟨⟨by simpa using hjson, by omega, hparsed, hvalid, by simpa using hname⟩, by omega⟩
  · rintro ⟨⟨hjson, hbounded, hparsed, hvalid, hname⟩, htotal⟩
    rw [if_neg (by rw [hjson]; simp), if_neg (by omega), if_neg (by omega), parseStrictJson,
      if_neg (by omega), hparsed]
    simp only [seq_eq_ok, refuseInvalid_ok]
    exact ⟨hvalid, by simpa using hname, rfl⟩

/-- A file and the record read from it. -/
def Stored (env : Env) (leaf : String × Bytes) (stored : Recommendation × Bytes) : Prop :=
  stored.2 = leaf.2 ∧ Canonical env leaf.1 leaf.2 stored.1

variable {stored : List (Recommendation × Bytes)} {leaves : List (String × Bytes)}

theorem readEntries_ok (htotal : total ≤ totalLimit) : readEntries env total leaves = .ok stored ↔
      List.Forall₂ (Stored env) leaves stored ∧
        total + (leaves.map (fun leaf => leaf.2.length)).sum ≤ totalLimit := by
  induction leaves generalizing total stored with
  | nil => simp [readEntries, htotal, eq_comm]
  | cons leaf leaves ih =>
    obtain ⟨name, bytes⟩ := leaf
    unfold readEntries
    simp only [bind_eq_ok, readEntry_ok, map_cons, sum_cons]
    constructor
    · rintro ⟨record, ⟨hcanonical, hle⟩, others, hothers, heq⟩
      cases heq
      obtain ⟨hall, hsum⟩ := (ih hle).mp hothers
      exact ⟨.cons ⟨rfl, hcanonical⟩ hall, by omega⟩
    · rintro ⟨hall, hsum⟩
      cases hall with
      | @cons _ found _ rest hleaf hall =>
        obtain ⟨record, found⟩ := found
        obtain ⟨hbytes, hcanonical⟩ := hleaf
        obtain rfl : found = bytes := hbytes
        have hle : total + found.length ≤ totalLimit := by omega
        exact ⟨record, ⟨hcanonical, hle⟩, rest, (ih hle).mpr ⟨hall, by omega⟩, rfl⟩

/-- Every file of the first directory is in the second one. -/
def Part (files files' : Files) : Prop :=
  ∀ (name : String) (bytes : Bytes), files[name]? = some bytes → files'[name]? = some bytes

/-- What a successful reading of the record files says. -/
structure Reads (env : Env) (files : Files) (inventory : Inventory) : Prop where
  size : files.size ≤ entryLimit
  total : (files.toList.map (fun leaf => leaf.2.length)).sum ≤ totalLimit
  canonical : ∀ (name : String) (bytes : Bytes), files[name]? = some bytes →
    ∃ record, Canonical env name bytes record
  ids : (inventory.records.map (·.id)).Nodup
  mem : ∀ record, record ∈ inventory.records ↔ ∃ bytes : Bytes,
    files[recommendationFilename record.id]? = some bytes ∧ env.parseRecord bytes = some record
  leaves : ∀ id : String, inventory.leaves[id]? = files[recommendationFilename id]?

theorem Canonical.unique {record' : Recommendation} (h : Canonical env name bytes record)
    (h' : env.parseRecord bytes = some record') :
    record' = record := by
  rw [h.parsed, Option.some.injEq] at h'
  exact h'.symm

theorem forall₂_stored_names (h : List.Forall₂ (Stored env) leaves stored) :
    stored.map (fun leaf => recommendationFilename leaf.1.id) = leaves.map Prod.fst := by
  induction h with
  | nil => rfl
  | cons hleaf _ ih => rw [map_cons, map_cons, ih, ← hleaf.2.filename]

theorem readRecords_reads (h : readRecords env files = .ok inventory) :
    Reads env files inventory := by
  unfold readRecords at h
  rw [seq_eq_ok, refuseInvalid_ok, bind_eq_ok] at h
  obtain ⟨hsize, stored, hstored, heq⟩ := h
  cases heq
  obtain ⟨hall, htotal⟩ := (readEntries_ok (Nat.zero_le _)).mp hstored
  have hnames := forall₂_stored_names hall
  have hids : ((stored.map Prod.fst).map (·.id)).Nodup := by
    refine List.Nodup.of_map recommendationFilename ?_
    simp only [map_map, Function.comp_def]
    rw [hnames, toList_keys]
    exact keys_nodup
  have hto := forall₂_mem_left hall
  have hfrom := forall₂_mem_right hall
  refine ⟨by simpa using hsize, by simpa using htotal, ?_, hids, ?_, ?_⟩
  · intro name bytes hfile
    obtain ⟨s, -, -, hcanonical⟩ := hto (name, bytes) (mem_toList.mpr hfile)
    exact ⟨s.1, hcanonical⟩
  · intro record
    constructor
    · intro hrecord
      obtain ⟨s, hs, rfl⟩ := mem_map.mp hrecord
      obtain ⟨leaf, hleaf, -, hcanonical⟩ := hfrom s hs
      have hfile := mem_toList.mp hleaf
      rw [hcanonical.filename] at hfile
      exact ⟨leaf.2, hfile, hcanonical.parsed⟩
    · rintro ⟨bytes, hfile, hparsed⟩
      obtain ⟨s, hs, -, hcanonical⟩ := hto (_, bytes) (mem_toList.mpr hfile)
      rw [hcanonical.unique hparsed]
      exact mem_map_of_mem hs
  · intro id
    apply Option.ext
    intro bytes
    rw [get_ofList (by rw [map_map] at hids ⊢; exact hids), mem_map]
    constructor
    · rintro ⟨s, hs, heq⟩
      cases heq
      obtain ⟨leaf, hleaf, hbytes, hcanonical⟩ := hfrom s hs
      rw [← hcanonical.filename, hbytes]
      exact mem_toList.mp hleaf
    · intro hfile
      obtain ⟨s, hs, hbytes, hcanonical⟩ := hto (_, bytes) (mem_toList.mpr hfile)
      refine ⟨s, hs, ?_⟩
      rw [hbytes, recommendationFilename_injective hcanonical.filename]

theorem Reads.part (h : Reads env files inventory) {part : Files} (hpart : Part part files) :
    ∃ inventory', readRecords env part = .ok inventory' := by
  have hsize : part.size ≤ files.size :=
    size_le (f := id) Function.injective_id (fun name bytes hb => ⟨bytes, hpart name bytes hb⟩)
  have htotal : (part.toList.map (fun leaf => leaf.2.length)).sum ≤
      (files.toList.map (fun leaf => leaf.2.length)).sum :=
    sum_le (f := id) Function.injective_id
      (fun name bytes hb => ⟨bytes, hpart name bytes hb, Nat.le_refl _⟩)
  have hleaves : ∀ leaf ∈ part.toList, ∃ s, Stored env leaf s := by
    intro leaf hleaf
    obtain ⟨record, hcanonical⟩ :=
      h.canonical leaf.1 leaf.2 (hpart _ _ (mem_toList.mp hleaf))
    exact ⟨(record, leaf.2), rfl, hcanonical⟩
  obtain ⟨stored, hstored⟩ := forall₂_exists hleaves
  have hread : readEntries env 0 part.toList = .ok stored := by
    refine (readEntries_ok (Nat.zero_le _)).mpr ⟨hstored, ?_⟩
    rw [Nat.zero_add]
    exact Nat.le_trans htotal h.total
  refine ⟨⟨stored.map Prod.fst, .ofList (stored.map (fun leaf => (leaf.1.id, leaf.2)))⟩, ?_⟩
  unfold readRecords
  rw [seq_eq_ok, refuseInvalid_ok, bind_eq_ok]
  exact ⟨by simpa using Nat.le_trans hsize h.size, stored, hread, rfl⟩

end reading

/-! ## What a removal takes with it -/

section closure
variable {records : List Recommendation}

theorem deletionGraphIds_fixed (ids : Finset String) :
    deletionPass records (deletionGraphIds records ids) = deletionGraphIds records ids := by
  fun_induction deletionGraphIds records ids with
  | case1 ids h => exact h
  | case2 ids h ih => exact ih

theorem addListing_mem {rest : List Recommendation} {r : Recommendation} (hr : r ∈ rest)
    {m : String} (hm : m ∈ r.rollupMemberIds) (hids : m ∈ ids) :
    r.id ∈ rest.foldl addListing ids := by
  induction rest generalizing ids with
  | nil => cases hr
  | cons x rest ih =>
    rw [foldl_cons]
    rcases mem_cons.mp hr with rfl | hr
    · refine subset_foldl_addListing _ _ ?_
      rw [addListing, if_pos (any_eq_true.mpr ⟨m, hm, by simpa using hids⟩)]
      exact Finset.mem_insert_self _ _
    · refine ih hr ?_
      unfold addListing
      split
      · exact Finset.mem_insert_of_mem hids
      · exact hids

/-- A set of ids that a removal can take: with a record its parent and its
members, and with a member every parent that lists it. -/
structure Closed (records : List Recommendation) (ids : Finset String) : Prop where
  down : ∀ r ∈ records, r.id ∈ ids → ∀ m ∈ r.rollupMemberIds, m ∈ ids
  up : ∀ r ∈ records, ∀ m ∈ r.rollupMemberIds, m ∈ ids → r.id ∈ ids

theorem closed_deletionGraphIds (hnd : (records.map (·.id)).Nodup) (ids : Finset String) :
    Closed records (deletionGraphIds records ids) where
  down := by
    intro r hr hid m hm
    rw [← deletionGraphIds_fixed]
    refine subset_foldl_addListing _ _ (Finset.mem_union_right _ ?_)
    refine Finset.mem_biUnion.mpr ⟨r.id, hid, ?_⟩
    rw [relatedIds, findById_of_mem hnd hr, mem_toFinset]
    exact mem_append_right _ hm
  up := by
    intro r hr m hm hid
    rw [← deletionGraphIds_fixed]
    exact addListing_mem hr hm (Finset.mem_union_left _ hid)

/-- Removing a closed set of records leaves a valid graph: what is left refers only
to what is left. -/
theorem graph_remove {digests : Digests} (h : Graph.Ok digests records)
    (hclosed : Closed records ids) :
    Graph.Ok digests (records.filter (fun r => decide (r.id ∉ ids))) := by
  have hnd : ((records.filter (fun r => decide (r.id ∉ ids))).map (·.id)).Nodup :=
    h.ids.sublist (filter_sublist.map _)
  have hlook : ∀ m, m ∉ ids →
      findById (records.filter (fun r => decide (r.id ∉ ids))) m = findById records m := by
    intro m hm
    apply Option.ext
    intro r
    rw [findById_eq_some_iff hnd, findById_eq_some_iff h.ids, mem_filter]
    constructor
    · rintro ⟨⟨hr, -⟩, hid⟩
      exact ⟨hr, hid⟩
    · rintro ⟨hr, rfl⟩
      exact ⟨⟨hr, by simpa using hm⟩, rfl⟩
  refine ⟨hnd, ?_⟩
  intro r hr
  obtain ⟨hr, hkept⟩ := mem_filter.mp hr
  have hkept : r.id ∉ ids := by simpa using hkept
  have hmembers : ∀ m ∈ r.rollupMemberIds, m ∉ ids :=
    fun m hm hid => hkept (hclosed.up r hr m hm hid)
  have hnode := h.nodes r hr
  refine ⟨hnode.lengths, hnode.nodup, ?_, hnode.identity, ?_, hnode.rolledUp, ?_, ?_⟩
  · intro m hm
    rw [hlook m (hmembers m hm)]
    exact hnode.known m hm
  · rw [hnode.keys]
    refine congrArg sortStrings (filterMap_congr ?_)
    intro m hm
    rw [hlook m (hmembers m hm)]
  · intro hactive m hm
    rw [hlook m (hmembers m hm)]
    exact hnode.owns hactive m hm
  · intro parentId hby
    obtain ⟨parent, hparent, hcount⟩ := hnode.parent parentId hby
    obtain ⟨hmem, rfl⟩ := findById_mem hparent
    have hlists : r.id ∈ parent.rollupMemberIds := count_pos_iff.mp (by omega)
    rw [hlook _ (fun hid => hkept (hclosed.down parent hmem hid _ hlists))]
    exact ⟨parent, hparent, hcount⟩

end closure

/-! ## The removal -/

structure Job where
  name : String
  before : Files
  removal : PreparedRemoval

namespace Job

variable (job : Job)

def records : List Recommendation := job.removal.inventory.records

def entries : List RollupTransactionEntry := job.removal.entries

/-- The manifest of the removal in its two phases. -/
def manifest (committed : Bool) : RollupTransactionManifest := ⟨2, committed, job.entries⟩

def manifestBytes (committed : Bool) : Bytes := job.removal.manifestBytes committed

def isTarget (name : String) : Bool := job.entries.any (fun entry => entry.target == name)

/-- The record files that are left. -/
def kept : Files := job.before.filter (fun name _ => !job.isTarget name)

/-- The complete backups. -/
def saved : Files := job.before.filter (fun name _ => job.isTarget name)

/-- The disk while the transaction directory is `t`. -/
def disk (files : Files) (t : Transaction) : Disk where
  files := files
  journal := some ((∅ : TextMap Transaction).insert job.name t)

/-- The record is not removed. -/
def keeps (record : Recommendation) : Bool := !job.entries.any (fun entry => entry.id == record.id)

/-- What preparing the removal has established, and that the manifests read back. -/
structure Sound (env : Env) (job : Job) : Prop where
  name : ∃ uuid, job.name = "tx-" ++ uuid ∧ env.canonicalUuid uuid = true
  reads : Reads env job.before job.removal.inventory
  graph : Graph.Ok env.digests job.records
  remaining : Graph.Ok env.digests (job.records.filter job.keeps)
  entry : ∀ entry ∈ job.entries, ∃ bytes : Bytes,
    job.before[recommendationFilename entry.id]? = some bytes ∧
      entry = deletionEntry env entry.id bytes
  sorted : (job.entries.map (·.id)).Pairwise (· < ·)
  valid : validateManifestEntries [] job.entries = .ok ()
  encoded : ∀ committed, job.manifestBytes committed = env.encodeManifest (job.manifest committed)
  bounded : ∀ committed, (job.manifestBytes committed).length ≤ byteLimit
  readsBack : ∀ committed,
    env.parseManifest (job.manifestBytes committed) = some (job.manifest committed)

end Job

section prepared
variable {env : Env}

variable {inventory : Inventory}

theorem removalEntries_ok {leaves : TextMap Bytes} {records : List Recommendation}
    {entries : List RollupTransactionEntry}
    (h : removalEntries env leaves ids records = .ok entries) :
    entries.map (·.id) = (records.filter (fun r => decide (r.id ∈ ids))).map (·.id) ∧
      ∀ entry ∈ entries, ∃ bytes : Bytes, leaves[entry.id]? = some bytes ∧
        entry = deletionEntry env entry.id bytes := by
  induction records generalizing entries with
  | nil =>
    cases h
    exact ⟨rfl, by simp⟩
  | cons record records ih =>
    unfold removalEntries at h
    split at h
    · rename_i hout
      rw [filter_cons_of_neg (by simpa using hout)]
      exact ih h
    · rename_i hin
      rw [filter_cons_of_pos (by simpa using hin)]
      split at h
      · cases h
      · rename_i bytes hbytes
        rw [bind_eq_ok] at h
        obtain ⟨rest, hrest, heq⟩ := h
        cases heq
        obtain ⟨hids, hentries⟩ := ih hrest
        refine ⟨by rw [map_cons, map_cons, hids]; rfl, ?_⟩
        intro entry hentry
        rcases mem_cons.mp hentry with rfl | hentry
        · exact ⟨bytes, hbytes, rfl⟩
        · exact hentries entry hentry

theorem boundedManifest_ok {manifest : RollupTransactionManifest} {bytes : Bytes} :
    boundedManifest env manifest = .ok bytes ↔
      bytes = env.encodeManifest manifest ∧ bytes.length ≤ byteLimit := by
  unfold boundedManifest
  rw [seq_eq_ok, refuseInvalid_ok, decide_eq_false_iff_not, Nat.not_lt]
  constructor
  · rintro ⟨hle, heq⟩
    cases heq
    exact ⟨rfl, hle⟩
  · rintro ⟨rfl, hle⟩
    exact ⟨hle, rfl⟩

/-- The entries of a prepared removal. -/
structure Prepared (env : Env) (inventory : Inventory) (ids : Finset String)
    (removal : PreparedRemoval) : Prop where
  same : removal.inventory = inventory
  ids : ∀ id, id ∈ removal.entries.map (·.id) ↔
    id ∈ (inventory.records.filter (fun r => decide (r.id ∈ ids))).map (·.id)
  entry : ∀ entry ∈ removal.entries, ∃ bytes : Bytes, inventory.leaves[entry.id]? = some bytes ∧
    entry = deletionEntry env entry.id bytes
  sorted : (inventory.records.map (·.id)).Nodup → (removal.entries.map (·.id)).Pairwise (· < ·)
  valid : validateManifestEntries [] removal.entries = .ok ()
  encoded : ∀ committed, removal.manifestBytes committed =
    env.encodeManifest ⟨2, committed, removal.entries⟩
  bounded : ∀ committed, (removal.manifestBytes committed).length ≤ byteLimit

variable {select : Recommendation → Bool} {removal : PreparedRemoval}

theorem prepareSelected_ok (h : prepareSelected env inventory select = .ok removal) :
    Prepared env inventory (removedIds inventory.records select) removal := by
  unfold prepareSelected at h
  rw [bind_eq_ok] at h
  obtain ⟨unsorted, hunsorted, h⟩ := h
  rw [seq_eq_ok, bind_eq_ok] at h
  obtain ⟨hvalid, uncommitted, huncommitted, h⟩ := h
  rw [bind_eq_ok] at h
  obtain ⟨committed, hcommitted, heq⟩ := h
  cases heq
  obtain ⟨hids, hentries⟩ := removalEntries_ok hunsorted
  rw [boundedManifest_ok] at huncommitted hcommitted
  have hperm : (sortBy (fun a b => decide (a.id ≤ b.id)) unsorted).Perm unsorted := sortBy_perm
  refine ⟨rfl, ?_, ?_, ?_, hvalid, ?_, ?_⟩
  · intro id
    rw [← hids]
    exact (hperm.map _).mem_iff
  · intro entry hentry
    exact hentries entry (hperm.mem_iff.mp hentry)
  · intro hnodup
    have hdistinct : ((sortBy (fun a b => decide (a.id ≤ b.id)) unsorted).map (·.id)).Nodup := by
      rw [(hperm.map _).nodup_iff, hids]
      exact hnodup.sublist (filter_sublist.map _)
    have hle : ((sortBy (fun a b => decide (a.id ≤ b.id)) unsorted).map (·.id)).Pairwise
        (· ≤ ·) := by
      rw [pairwise_map]
      refine (pairwise_sortBy ?_ ?_).imp (fun h => of_decide_eq_true h)
      · intro a b
        simpa using le_total a.id b.id
      · intro a b c hab hbc
        simp only [decide_eq_true_eq] at hab hbc ⊢
        exact le_trans hab hbc
    exact (hle.and hdistinct).imp (fun h => lt_of_le_of_ne h.1 h.2)
  · rintro (_ | _)
    · exact huncommitted.1
    · exact hcommitted.1
  · rintro (_ | _)
    · exact huncommitted.2
    · exact hcommitted.2

variable {d : Disk}

theorem inspect_ok (h : inspect env d = .ok inventory) :
    readRecords env d.files = .ok inventory ∧ (d.journal.getD ∅).isEmpty = true ∧
      Graph.Ok env.digests inventory.records := by
  unfold inspect at h
  rw [bind_eq_ok] at h
  obtain ⟨found, hfound, h⟩ := h
  rw [seq_eq_ok] at h
  obtain ⟨-, h⟩ := h
  split at h
  · rename_i hempty
    rw [seq_eq_ok] at h
    obtain ⟨hgraph, heq⟩ := h
    cases heq
    exact ⟨hfound, hempty, validateGraphRecords_ok_iff.mp hgraph⟩
  · cases h

def removalJob (uuid : String) (files : Files) (removal : PreparedRemoval) : Job :=
  ⟨"tx-" ++ uuid, files, removal⟩

def ManifestsReadBack (env : Env) (removal : PreparedRemoval) : Prop :=
  ∀ committed, env.parseManifest (env.encodeManifest ⟨2, committed, removal.entries⟩) =
    some ⟨2, committed, removal.entries⟩

theorem removalJob_sound {uuid : String} (hinspect : inspect env d = .ok inventory)
    (hprepare : prepareSelected env inventory select = .ok removal)
    (hmanifest : ManifestsReadBack env removal) (huuid : env.canonicalUuid uuid = true) :
    (removalJob uuid d.files removal).Sound env := by
  obtain ⟨hread, -, hgraph⟩ := inspect_ok hinspect
  have hreads := readRecords_reads hread
  have hp := prepareSelected_ok hprepare
  obtain ⟨rfl⟩ := hp.same
  have hkeeps : ∀ r ∈ removal.inventory.records, (removalJob uuid d.files removal).keeps r =
      decide (r.id ∉ removedIds removal.inventory.records select) := by
    intro r hr
    have hmem := hp.ids r.id
    have hdef : (removalJob uuid d.files removal).keeps r =
        !removal.entries.any (fun entry => entry.id == r.id) := rfl
    rw [hdef, Bool.eq_iff_iff, decide_eq_true_iff]
    have hany : (removal.entries.any (fun entry => entry.id == r.id)) = true ↔
        r.id ∈ removal.entries.map (·.id) := by simp [any_eq_true]
    have hfilter : r.id ∈ (removal.inventory.records.filter (fun x =>
        decide (x.id ∈ removedIds removal.inventory.records select))).map (·.id) ↔
        r.id ∈ removedIds removal.inventory.records select := by
      constructor
      · intro h
        obtain ⟨x, hx, hid⟩ := mem_map.mp h
        rw [← hid]
        simpa using (mem_filter.mp hx).2
      · intro h
        exact mem_map_of_mem (mem_filter.mpr ⟨hr, by simpa using h⟩)
    rw [hfilter] at hmem
    rw [← hmem, ← hany]
    simp
  exact {
    name := ⟨uuid, rfl, huuid⟩
    reads := hreads
    graph := hgraph
    remaining := by
      have hrecords : (removalJob uuid d.files removal).records = removal.inventory.records := rfl
      rw [hrecords, filter_congr hkeeps]
      exact graph_remove hgraph (closed_deletionGraphIds hgraph.ids _)
    entry := by
      intro entry hentry
      obtain ⟨bytes, hbytes, heq⟩ := hp.entry entry hentry
      rw [hreads.leaves] at hbytes
      exact ⟨bytes, hbytes, heq⟩
    sorted := hp.sorted hgraph.ids
    valid := hp.valid
    encoded := hp.encoded
    bounded := hp.bounded
    readsBack := by
      intro committed
      have hbytes : (removalJob uuid d.files removal).manifestBytes committed =
          env.encodeManifest ⟨2, committed, removal.entries⟩ := hp.encoded committed
      rw [hbytes]
      exact hmanifest committed }

end prepared

namespace Job

variable {env : Env} {job : Job}

variable {entry : RollupTransactionEntry}

theorem Sound.target (hjob : job.Sound env) (h : entry ∈ job.entries) :
    entry.target = recommendationFilename entry.id := by
  obtain ⟨bytes, -, heq⟩ := hjob.entry entry h
  rw [heq]
  rfl

theorem Sound.isTarget_iff (hjob : job.Sound env) :
    job.isTarget name = true ↔ ∃ entry ∈ job.entries, recommendationFilename entry.id = name := by
  unfold isTarget
  rw [any_eq_true]
  constructor
  · rintro ⟨entry, hentry, hname⟩
    exact ⟨entry, hentry, by rw [← hjob.target hentry]; simpa using hname⟩
  · rintro ⟨entry, hentry, hname⟩
    exact ⟨entry, hentry, by rw [hjob.target hentry]; simpa using hname⟩

theorem Sound.ids_nodup (hjob : job.Sound env) : (job.entries.map (·.id)).Nodup :=
  hjob.sorted.imp (fun h => ne_of_lt h)

theorem Sound.entry_eq (hjob : job.Sound env) {entry' : RollupTransactionEntry}
    (h : entry ∈ job.entries) (h' : entry' ∈ job.entries) (hid : entry.id = entry'.id) :
    entry = entry' :=
  inj_on_of_nodup_map hjob.ids_nodup h h' hid

variable (name : String)

theorem kept_get : job.kept[name]? = if job.isTarget name then none else job.before[name]? := by
  rw [kept, get_filter]
  cases job.isTarget name <;> cases job.before[name]? <;> simp

theorem saved_get : job.saved[name]? = if job.isTarget name then job.before[name]? else none := by
  rw [saved, get_filter]
  cases job.isTarget name <;> cases job.before[name]? <;> simp

theorem kept_part (bytes : Bytes) (h : job.kept[name]? = some bytes) :
    job.before[name]? = some bytes := by
  rw [kept_get] at h
  split at h
  · cases h
  · exact h

theorem Sound.saved_entry (hjob : job.Sound env) (h : entry ∈ job.entries) :
    job.saved[recommendationFilename entry.id]? =
      job.before[recommendationFilename entry.id]? := by
  rw [saved_get, if_pos (hjob.isTarget_iff.mpr ⟨entry, h, rfl⟩)]

theorem Sound.kept_entry (hjob : job.Sound env) (h : entry ∈ job.entries) :
    job.kept[recommendationFilename entry.id]? = none := by
  rw [kept_get, if_pos (hjob.isTarget_iff.mpr ⟨entry, h, rfl⟩)]

theorem Sound.entries_length (hjob : job.Sound env) : job.entries.length ≤ entryLimit := by
  have hsub : List.Subperm (job.entries.map (fun entry => recommendationFilename entry.id))
      job.before.keys := by
    refine subperm_of_subset ?_ ?_
    · have h := hjob.ids_nodup.map recommendationFilename_injective
      rwa [map_map] at h
    · intro name hname
      obtain ⟨entry, hentry, rfl⟩ := mem_map.mp hname
      obtain ⟨bytes, hbytes, -⟩ := hjob.entry entry hentry
      exact TextMap.mem_keys.mpr ⟨bytes, hbytes⟩
  have hle := hsub.length_le
  rw [length_map, Std.ExtTreeMap.length_keys] at hle
  exact Nat.le_trans hle hjob.reads.size

end Job

end Orkworksd.Taskmaster.Deletion
