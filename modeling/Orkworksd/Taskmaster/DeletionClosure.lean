import Mathlib.Logic.Relation
import Orkworksd.Taskmaster.DeletionJournalInventory
import Orkworksd.Taskmaster.GraphTransaction

/- What a deletion takes with it (`deletion_graph_ids`).

   The loop adds the parents and members of what is there and the parents that list a member
   that is there, until a pass adds nothing. So the result is the least set of ids over the
   seeds that is closed under these links, and it is made of the seeds and what they are
   connected to.

   Main results: `deletion_closure_exact`, and for the store `deletion_forgets`, with
   `deleteReferencingSession_forgets` and `scrubOrphans_forgets` for its two callers. -/
namespace Orkworksd.Taskmaster.Deletion
open Lib List

/-- A set that contains with a record its parent and its members, and with a member every
record that lists it. -/
structure LinkClosed (records : List Recommendation) (ids : Set String) : Prop where
  parent : ∀ r ∈ records, r.id ∈ ids → ∀ p, r.rolledUpBy = some p → p ∈ ids
  members : ∀ r ∈ records, r.id ∈ ids → ∀ m ∈ r.rollupMemberIds, m ∈ ids
  listing : ∀ r ∈ records, ∀ m ∈ r.rollupMemberIds, m ∈ ids → r.id ∈ ids

/-- One of the two records names the other as its parent or as a member. -/
def Linked (records : List Recommendation) (a b : String) : Prop :=
  ∃ r ∈ records, (r.id = a ∧ (r.rolledUpBy = some b ∨ b ∈ r.rollupMemberIds)) ∨
    (r.id = b ∧ (r.rolledUpBy = some a ∨ a ∈ r.rollupMemberIds))

section closure
variable {records : List Recommendation} {digests : Digests}

variable {bound : Set String}

variable {ids : Finset String}

theorem foldl_addListing_closed (hids : ∀ id ∈ ids, id ∈ bound) (rest : List Recommendation)
    (hlisting : ∀ r ∈ rest, ∀ m ∈ r.rollupMemberIds, m ∈ bound → r.id ∈ bound) :
    ∀ id ∈ rest.foldl addListing ids, id ∈ bound := by
  induction rest generalizing ids with
  | nil => exact hids
  | cons r rest ih =>
    refine ih ?_ (fun r' hr' => hlisting r' (mem_cons_of_mem _ hr'))
    unfold addListing
    split
    · rename_i hany
      obtain ⟨m, hm, hmem⟩ := any_eq_true.mp hany
      intro id hid
      rcases Finset.mem_insert.mp hid with rfl | hid
      · exact hlisting r mem_cons_self m hm (hids m (of_decide_eq_true hmem))
      · exact hids id hid
    · exact hids

theorem deletionPass_closed (hclosed : LinkClosed records bound) (hids : ∀ id ∈ ids, id ∈ bound) :
    ∀ id ∈ deletionPass records ids, id ∈ bound := by
  refine foldl_addListing_closed ?_ records hclosed.listing
  intro id hid
  rcases Finset.mem_union.mp hid with hid | hid
  · exact hids id hid
  · obtain ⟨source, hsource, hid⟩ := Finset.mem_biUnion.mp hid
    unfold relatedIds at hid
    split at hid
    · simp at hid
    · rename_i r hr
      obtain ⟨hmem, rfl⟩ := findById_mem hr
      rw [mem_toFinset, mem_append, Option.mem_toList] at hid
      rcases hid with hparent | hmember
      · exact hclosed.parent r hmem (hids _ hsource) id hparent
      · exact hclosed.members r hmem (hids _ hsource) id hmember

theorem deletionGraphIds_least (hclosed : LinkClosed records bound) (seeds : Finset String)
    (hseeds : ∀ id ∈ seeds, id ∈ bound) : ∀ id ∈ deletionGraphIds records seeds, id ∈ bound := by
  fun_induction deletionGraphIds records seeds with
  | case1 ids _ => exact hseeds
  | case2 ids _ ih => exact ih (deletionPass_closed hclosed hseeds)

variable (seeds : Finset String)

theorem subset_deletionGraphIds : seeds ⊆ deletionGraphIds records seeds := by
  fun_induction deletionGraphIds records seeds with
  | case1 ids _ => exact Finset.Subset.refl _
  | case2 ids _ ih => exact Finset.Subset.trans (subset_deletionPass records ids) ih

theorem linkClosed_deletionGraphIds (hnd : (records.map (·.id)).Nodup) (seeds : Finset String) :
    LinkClosed records {id | id ∈ deletionGraphIds records seeds} where
  parent := by
    intro r hr hid p hp
    show p ∈ deletionGraphIds records seeds
    rw [← deletionGraphIds_fixed]
    refine subset_foldl_addListing _ _ (Finset.mem_union_right _ ?_)
    refine Finset.mem_biUnion.mpr ⟨r.id, hid, ?_⟩
    rw [relatedIds, findById_of_mem hnd hr, mem_toFinset, hp]
    exact mem_append_left _ (mem_singleton_self p)
  members := (closed_deletionGraphIds hnd seeds).down
  listing := (closed_deletionGraphIds hnd seeds).up

theorem LinkClosed.linked (hgraph : Graph.Ok digests records) {ids : Set String}
    (h : LinkClosed records ids) {a b : String} (hlink : Linked records a b) (ha : a ∈ ids) :
    b ∈ ids := by
  obtain ⟨r, hr, ⟨rfl, hparent | hmember⟩ | ⟨rfl, hparent | hmember⟩⟩ := hlink
  · exact h.parent r hr ha b hparent
  · exact h.members r hr ha b hmember
  · -- the parent of a valid graph lists the record
    obtain ⟨parent, hfind, hcount⟩ := (hgraph.nodes r hr).parent a hparent
    obtain ⟨hmem, rfl⟩ := findById_mem hfind
    have hlists : r.id ∈ parent.rollupMemberIds := count_pos_iff.mp (by omega)
    exact h.members parent hmem ha r.id hlists
  · exact h.listing r hr a hmember ha

/-- The ids that the seeds are connected to. -/
def Component (records : List Recommendation) (seeds : Finset String) : Set String :=
  {id | ∃ seed ∈ seeds, Relation.ReflTransGen (Linked records) seed id}

theorem linkClosed_component : LinkClosed records (Component records seeds) where
  parent := by
    intro r hr hid p hp
    obtain ⟨seed, hseed, hpath⟩ := hid
    exact ⟨seed, hseed, hpath.tail ⟨r, hr, .inl ⟨rfl, .inl hp⟩⟩⟩
  members := by
    intro r hr hid m hm
    obtain ⟨seed, hseed, hpath⟩ := hid
    exact ⟨seed, hseed, hpath.tail ⟨r, hr, .inl ⟨rfl, .inr hm⟩⟩⟩
  listing := by
    intro r hr m hm hid
    obtain ⟨seed, hseed, hpath⟩ := hid
    exact ⟨seed, hseed, hpath.tail ⟨r, hr, .inr ⟨rfl, .inr hm⟩⟩⟩

theorem mem_deletionGraphIds_iff (hgraph : Graph.Ok digests records) (seeds : Finset String)
    (id : String) : id ∈ deletionGraphIds records seeds ↔ id ∈ Component records seeds := by
  constructor
  · exact deletionGraphIds_least (linkClosed_component seeds) seeds
      (fun seed hseed => ⟨seed, hseed, .refl⟩) id
  · intro h
    obtain ⟨seed, hseed, hpath⟩ := h
    induction hpath with
    | refl => exact subset_deletionGraphIds seeds hseed
    | tail _ hlink ih => exact (linkClosed_deletionGraphIds hgraph.ids seeds).linked hgraph hlink ih

/-- The order of the records does not matter. -/
theorem deletionGraphIds_congr {records' : List Recommendation} (hnd : (records.map (·.id)).Nodup)
    (hnd' : (records'.map (·.id)).Nodup) (hmem : ∀ r, r ∈ records ↔ r ∈ records')
    (seeds : Finset String) : deletionGraphIds records seeds = deletionGraphIds records' seeds := by
  have hsub : ∀ {l l' : List Recommendation}, (l'.map (·.id)).Nodup → (∀ r ∈ l, r ∈ l') →
      deletionGraphIds l seeds ⊆ deletionGraphIds l' seeds := by
    intro l l' hnd hmem
    have hclosed := linkClosed_deletionGraphIds hnd seeds
    refine deletionGraphIds_least ⟨?_, ?_, ?_⟩ seeds (subset_deletionGraphIds seeds)
    · exact fun r hr => hclosed.parent r (hmem r hr)
    · exact fun r hr => hclosed.members r (hmem r hr)
    · exact fun r hr => hclosed.listing r (hmem r hr)
  exact (hsub hnd' (fun r => (hmem r).mp)).antisymm (hsub hnd (fun r => (hmem r).mpr))

end closure

/-- For every valid graph and every set of seeds: what a deletion takes is the least set with
the seeds that is closed under parent and member links, what it leaves is a valid graph, and
it takes the seeds and the records connected to them, no others. -/
theorem deletion_closure_exact (digests : Digests) (records : List Recommendation)
    (seeds : Finset String) (hvalid : validateGraphRecords digests records = .ok ()) :
    (seeds ⊆ deletionGraphIds records seeds ∧
      LinkClosed records {id | id ∈ deletionGraphIds records seeds} ∧
      ∀ ids : Set String, (∀ seed ∈ seeds, seed ∈ ids) → LinkClosed records ids →
        ∀ id ∈ deletionGraphIds records seeds, id ∈ ids) ∧
      validateGraphRecords digests
        (records.filter (fun r => decide (r.id ∉ deletionGraphIds records seeds))) = .ok () ∧
      ∀ id, id ∈ deletionGraphIds records seeds ↔
        ∃ seed ∈ seeds, Relation.ReflTransGen (Linked records) seed id := by
  have hgraph : Graph.Ok digests records := validateGraphRecords_ok_iff.mp hvalid
  refine ⟨⟨subset_deletionGraphIds seeds, linkClosed_deletionGraphIds hgraph.ids seeds, ?_⟩, ?_, ?_⟩
  · intro ids hseeds hclosed
    exact deletionGraphIds_least hclosed seeds hseeds
  · exact validateGraphRecords_ok_iff.mpr
      (graph_remove hgraph (closed_deletionGraphIds hgraph.ids seeds))
  · exact mem_deletionGraphIds_iff hgraph seeds

/-! ## A rollup of two records -/

def sampleRollupId : String :=
  "rollup:8fb20ef63ced4145fc2e983ffe597d1dcff39154c3bf21f0fa9dde6a0c50fdc9"

def sampleDigests : Digests :=
  { Taskmaster.Sample.env.digests with
    sha256 := fun bytes =>
      if bytes = utf8 "a" ++ [0] ++ utf8 "b" ++ [0] then
        "8fb20ef63ced4145fc2e983ffe597d1dcff39154c3bf21f0fa9dde6a0c50fdc9"
      else Taskmaster.Sample.env.digests.sha256 bytes }

/-- Two members, their rollup and a record of its own. -/
def sampleGraph : List Recommendation :=
  [{ Taskmaster.Sample.record with status := .rolledUp, rolledUpBy := some sampleRollupId },
    { Taskmaster.Sample.record with
      id := "b", status := .rolledUp, rolledUpBy := some sampleRollupId },
    { Taskmaster.Sample.record with
      id := sampleRollupId, rollupMemberIds := ["a", "b"], rollupMemberDedupeKeys := ["k", "k"] },
    { Taskmaster.Sample.record with id := "c" }]

/-- Deleting one member takes the rollup and the other member, and leaves the fourth record. -/
theorem deleting_a_member :
    "b" ∈ deletionGraphIds sampleGraph {"a"} ∧ "c" ∉ deletionGraphIds sampleGraph {"a"} := by
  have hvalid : validateGraphRecords sampleDigests sampleGraph = .ok () := by decide +kernel
  obtain ⟨⟨hseeds, hclosed, hleast⟩, -, -⟩ :=
    deletion_closure_exact sampleDigests sampleGraph {"a"} hvalid
  constructor
  · have hrollup := hclosed.parent _ mem_cons_self (hseeds (Finset.mem_singleton_self "a"))
      sampleRollupId rfl
    exact hclosed.members
      { Taskmaster.Sample.record with
        id := sampleRollupId, rollupMemberIds := ["a", "b"], rollupMemberDedupeKeys := ["k", "k"] }
      (by simp [sampleGraph]) hrollup "b" (by simp)
  · -- the other ids are closed without the fourth record
    have hparents : ∀ r ∈ sampleGraph, ∀ p ∈ r.rolledUpBy, p ≠ "c" := by decide
    have hmembers : ∀ r ∈ sampleGraph, ∀ m ∈ r.rollupMemberIds, m ≠ "c" := by decide
    have hlisting : ∀ r ∈ sampleGraph, ∀ m ∈ r.rollupMemberIds, r.id ≠ "c" := by decide
    intro hmem
    refine hleast {id | id ≠ "c"} (by simp) ?_ "c" hmem rfl
    exact ⟨fun r hr _ p hp => hparents r hr p hp, fun r hr _ m hm => hmembers r hr m hm,
      fun r hr m hm _ => hlisting r hr m hm⟩

/-! ## The store after a deletion -/

section deleted
variable {env : Taskmaster.Env} {files after : Files} {stored : Taskmaster.Stored}
  {ids : Finset String} {r : Recommendation}

variable {replacement : Replacement}

/-- The replacements of `delete_graph_records`. -/
def removals (stored : Taskmaster.Stored) (ids : Finset String) : TextMap Replacement :=
  (stored.filter (fun id _ => id ∈ ids)).map (fun _ record => ⟨some record.2, none⟩)

theorem removals_get {id : String} :
    (removals stored ids)[id]? = some replacement ↔
      id ∈ ids ∧ ∃ record, stored[id]? = some record ∧ replacement = ⟨some record.2, none⟩ := by
  rw [removals, TextMap.get_map, TextMap.get_filter]
  cases stored[id]? with
  | none => simp
  | some record => simp [Option.filter, eq_comm]

theorem removals_landed {id : String} (h : (removals stored ids)[id]? = some replacement) :
    replacement.landed env = replacement.new := by
  obtain ⟨-, record, -, rfl⟩ := removals_get.mp h
  exact Replacement.landed_removed rfl

/-- The records whose ids are removed are gone, and the others are there. -/
theorem contains_after (hvalid : validateGraph env files = .ok ())
    (hstored : readAllStoredById env files = .ok stored)
    (hnamed : ∀ id ∈ (removals stored ids).keys, validId id = true)
    (h : Replaced (removals stored ids) files after) :
    Contains env after r ↔ Contains env files r ∧ r.id ∉ ids := by
  constructor
  · rintro ⟨bytes, name, hfile, hjson, hread⟩
    have hother : ∀ id ∈ (removals stored ids).keys, recommendationFilename id ≠ name := by
      rintro id hid rfl
      obtain ⟨replacement, hget⟩ := TextMap.mem_keys.mp hid
      obtain ⟨-, record, -, rfl⟩ := removals_get.mp hget
      exact nomatch hfile.symm.trans (h.new id _ hget)
    rw [h.others name hother] at hfile
    refine ⟨⟨bytes, name, hfile, hjson, hread⟩, ?_⟩
    intro hid
    have hget := removals_get.mpr ⟨hid, _, stored_get hvalid hstored ⟨name, hfile, hjson, hread⟩, rfl⟩
    have hkey := TextMap.mem_keys.mpr ⟨_, hget⟩
    have hcanonical := (isJsonFile_filename r.id).mpr (validId_ne_empty (hnamed r.id hkey))
    exact hother r.id hkey
      (name_unique hvalid (h.old _ _ hget) hfile hcanonical hjson hread hread rfl)
  · rintro ⟨⟨bytes, name, hfile, hjson, hread⟩, hnot⟩
    refine ⟨bytes, name, (h.others name ?_).trans hfile, hjson, hread⟩
    rintro id hid rfl
    obtain ⟨replacement, hget⟩ := TextMap.mem_keys.mp hid
    have hold := h.old id replacement hget
    obtain ⟨hmem, record, hrecord, rfl⟩ := removals_get.mp hget
    obtain ⟨⟨name', hfile', -, hread'⟩, hid'⟩ := readAllStoredById_get hstored hrecord
    -- the file is the one of a record that is removed
    rw [Option.some.inj (hfile.symm.trans hold), hread'] at hread
    exact hnot (Except.ok.inj hread ▸ hid' ▸ hmem)

end deleted

/-- What is left is a valid graph of the records that no chain of links connects to a selected
one. -/
def Forgot (env : Taskmaster.Env) (select : Recommendation → Bool) (files after : Files) : Prop :=
  ∃ records, readAll env files = .ok records ∧ validateGraph env after = .ok () ∧
    ∀ r, Contains env after r ↔
      r ∈ records ∧ r.id ∉ Component records ((records.filter select).map (·.id)).toFinset

theorem Forgot.unselected {env : Taskmaster.Env} {select : Recommendation → Bool}
    {files after : Files} {r : Recommendation} (h : Forgot env select files after)
    (hr : Contains env after r) : select r = false := by
  obtain ⟨records, -, -, hleft⟩ := h
  obtain ⟨hmem, hnot⟩ := (hleft r).mp hr
  by_contra hselect
  refine hnot ⟨r.id, mem_toFinset.mpr (mem_map.mpr ⟨r, ?_, rfl⟩), .refl⟩
  exact mem_filter.mpr ⟨hmem, Bool.not_eq_false _ ▸ hselect⟩

section deletions
variable {env : Taskmaster.Env} (hserde : env.serde.Lawful) (uuid : String) (d : Taskmaster.Disk)
include hserde

theorem deleteSelected_meets (select : Recommendation → Bool) :
    Prog.Meets (deleteSelected env uuid select) d
      (fun _ d' => Forgot env select (recoverTransactions env d).last.files d'.files)
      (fun _ d' => d'.files = (recoverTransactions env d).last.files) (fun _ => True) := by
  refine Prog.Meets.bind' ⟨fun _ _ => trivial, ?_, fun _ _ => rfl⟩
  intro _ hrecovered
  rw [recovered_disk hrecovered]
  generalize (recoverTransactions env d).last.files = files
  refine Prog.Meets.bind' (Prog.Meets.check' ?_ (fun _ _ => rfl))
  intro records hrecords
  obtain ⟨_, hread, hrecords⟩ := bind_eq_ok.mp hrecords
  obtain ⟨hgraph, hrecords⟩ := seq_eq_ok.mp hrecords
  cases hrecords
  refine Prog.Meets.bind' (Prog.Meets.check' ?_ (fun _ _ => rfl))
  intro stored hstored
  have hgraph := validateGraphRecords_ok_iff.mp hgraph
  have hvalid := validateGraph_ok.mpr ⟨_, hread, hgraph⟩
  refine (commit_meets hserde hvalid uuid).mono ?_ ?_ (fun _ _ => trivial)
  · rintro _ d' ⟨hverify, hcommitted⟩
    obtain ⟨hfiles, hafter⟩ := hcommitted.replaced hvalid hverify (fun _ _ => removals_landed)
    refine ⟨_, hread, hafter, ?_⟩
    intro r
    rw [← mem_deletionGraphIds_iff hgraph, mem_readAll hread]
    refine contains_after hvalid hstored (verifyCommit_ids hverify ?_) hfiles
    intro id hid
    exact mem_keys_map.mpr (mem_keys_map.mp hid)
  · rintro _ _ (⟨-, rfl⟩ | ⟨-, -, -, X, rfl, -⟩) <;> rfl

/-- After `delete_referencing_session` no record is left that mentions the session. -/
theorem deleteReferencingSession_forgets (sessionId : String) :
    Prog.Meets (deleteReferencingSession env uuid sessionId) d
      (fun _ d' => Forgot env (fun r => (referencedSessions r).contains sessionId)
          (recoverTransactions env d).last.files d'.files ∧
        ∀ r, Contains env d'.files r → sessionId ∉ referencedSessions r)
      (fun _ d' => d'.files = (recoverTransactions env d).last.files) (fun _ => True) := by
  refine (deleteSelected_meets hserde uuid d _).mono ?_ (fun _ _ h => h) (fun _ h => h)
  intro _ d' h
  refine ⟨h, fun r hr hmem => ?_⟩
  have hunselected := h.unselected hr
  rw [contains_iff_mem.mpr hmem] at hunselected
  cases hunselected

/-- After `scrub_orphans` every session that a record mentions is a retained one. -/
theorem scrubOrphans_forgets (retained : String → Bool) :
    Prog.Meets (scrubOrphans env uuid retained) d
      (fun _ d' => Forgot env (fun r => (referencedSessions r).any (fun id => !retained id))
          (recoverTransactions env d).last.files d'.files ∧
        ∀ r, Contains env d'.files r → ∀ id ∈ referencedSessions r, retained id = true)
      (fun _ d' => d'.files = (recoverTransactions env d).last.files) (fun _ => True) := by
  refine (deleteSelected_meets hserde uuid d _).mono ?_ (fun _ _ h => h) (fun _ h => h)
  intro _ d' h
  refine ⟨h, fun r hr id hid => ?_⟩
  have hunselected := any_eq_false.mp (h.unselected hr) id hid
  simpa using hunselected

end deletions

/-- Whatever was in the directory: a deletion that returns leaves the records that are not
connected to a selected one, and a deletion that fails leaves them all. -/
theorem deletion_forgets (env : Taskmaster.Env) (hserde : env.serde.Lawful) (uuid : String)
    (select : Recommendation → Bool) (d : Taskmaster.Disk) :
    Prog.Meets (deleteSelected env uuid select) d
      (fun _ d' => ∃ records, readAll env (recoverTransactions env d).last.files = .ok records ∧
        validateGraph env d'.files = .ok () ∧ ∀ r, Contains env d'.files r ↔
          r ∈ records ∧ r.id ∉ Component records ((records.filter select).map (·.id)).toFinset)
      (fun _ d' => d'.files = (recoverTransactions env d).last.files) (fun _ => True) :=
  deleteSelected_meets hserde uuid d select

/-- Deleting the one record of a store leaves none. -/
theorem deletion_forgets_record :
    readAll Taskmaster.Sample.store ((∅ : Files).insert "a.json" Taskmaster.Sample.json) =
      .ok [Taskmaster.Sample.record] ∧
    ∀ r, ¬ Contains Taskmaster.Sample.store
      (deleteSelected Taskmaster.Sample.store "0" (fun _ => true)
        ⟨(∅ : Files).insert "a.json" Taskmaster.Sample.json, none⟩).last.files r := by
  obtain ⟨records, -, -, hleft⟩ := (deletion_forgets Taskmaster.Sample.store
    Taskmaster.Sample.serde_lawful "0" (fun _ => true)
    ⟨(∅ : Files).insert "a.json" Taskmaster.Sample.json, none⟩).ok () (by decide +kernel)
  refine ⟨by decide +kernel, ?_⟩
  intro r hr
  obtain ⟨hmem, hnot⟩ := (hleft r).mp hr
  exact hnot ⟨r.id, by simpa using ⟨r, hmem, rfl⟩, .refl⟩

end Orkworksd.Taskmaster.Deletion
