import Orkworksd.Taskmaster.DeletionJournalValidation
import Orkworksd.Taskmaster.TransactionRecovery

/- Crash safety of the deletion journal.

   Every step of `publish` before the rename to the committed manifest keeps
   `Phase false`, every later step `Phase true`, and recovery keeps either of them and
   leaves exactly the files of `settled` (`recoverExpected_meets`).

   Main result: `deletion_journal_recovers`. -/
namespace Orkworksd.Taskmaster.Deletion
open Lib Prog List TextMap

variable {files : Files} {t : Transaction}

variable {backups : Files}

/-! ## File operations of the transaction -/

namespace Job

variable {job : Job}

theorem disk_transaction (files : Files) (t : Transaction) :
    (job.disk files t).transaction job.name = some t := by
  simp [Disk.transaction, disk]

theorem disk_modify (files : Files) (t : Transaction) (f : Transaction → Transaction) :
    (job.disk files t).modify job.name f = job.disk files (f t) := by
  unfold Disk.modify disk
  simp only [Option.map_some, Disk.mk.injEq, Option.some.injEq, true_and]
  apply TextMap.ext
  intro a
  rw [get_modify, get_insert, get_insert]
  by_cases h : job.name = a
  · simp [h]
  · simp [h]

end Job

section operations
variable {job : Job} {files : Files} {t : Transaction} {err : StoreError → Disk → Prop}
  {crash : Disk → Prop}

theorem meets_checkTransaction {α : Type} {f : Transaction → Except StoreError α}
    {post : α → Disk → Prop} {a : α} (hf : f t = .ok a) (h : post a (job.disk files t)) :
    Meets (checkTransaction job.name f) (job.disk files t) post err crash := by
  refine Meets.check_ok ?_ h
  simp only [job.disk_transaction, hf]

variable {post : Unit → Disk → Prop}

theorem meets_stepTransaction {f : Transaction → Transaction}
    (hcrash : crash (job.disk files (f t))) (h : post () (job.disk files (f t))) :
    Meets (stepTransaction job.name f) (job.disk files t) post err crash := by
  refine Meets.step' ?_ ?_
  · rw [job.disk_modify]
    exact hcrash
  · rw [job.disk_modify]
    exact h

theorem meets_writeLeaf {found : Transaction → Option Bytes}
    {put : Transaction → Bytes → Transaction} {bytes : Bytes} (hnew : found t = none)
    (hbounded : bytes.length ≤ byteLimit)
    (hcrash : ∀ written, written <+: bytes → crash (job.disk files (put t written)))
    (h : post () (job.disk files (put t bytes))) :
    Meets (writeLeaf job.name found put bytes) (job.disk files t) post err crash := by
  refine Meets.bind' (meets_checkTransaction (a := ()) (by rw [hnew]; rfl) ?_)
  refine Meets.bind' (Meets.during' ?_ ?_ ?_)
  · intro d hd
    obtain ⟨written, hwritten, rfl⟩ := mem_map.mp hd
    rw [job.disk_modify]
    exact hcrash written ((mem_inits _ _).mp hwritten)
  · rw [job.disk_modify]
    exact hcrash bytes (prefix_refl _)
  · rw [job.disk_modify]
    exact Meets.check_ok (boundLeaf_ok.mpr hbounded) h

end operations

/-! ## Cleaning up -/

section cleaning
variable {env : Env} {job : Job} {committed : Bool} {t : Transaction}

namespace Clean

section
variable (h : Clean job committed t)
include h

theorem phase :
    Phase job committed (job.disk (job.settled committed) t) :=
  .inr (.inl ⟨t, rfl, h⟩)

theorem fewerBackups {fewer : Files} (hbackups : t.backups = some backups)
    (hfewer : Part fewer backups) :
    Clean job committed { t with backups := some fewer } where
  temporary := h.temporary
  manifest := h.manifest
  backups := by
    rintro found ⟨⟩ name bytes hbytes
    exact h.backups backups hbackups name bytes (hfewer name bytes hbytes)
  staged := h.staged
  others := h.others
  vouched := by
    intro hc hnone
    rw [h.vouched hc hnone] at hbackups
    cases hbackups

theorem noBackups : Clean job committed { t with backups := none } :=
  ⟨h.temporary, h.manifest, by rintro _ ⟨⟩, h.staged, h.others, fun _ _ => rfl⟩

theorem noStaged : Clean job committed { t with staged := none } :=
  ⟨h.temporary, h.manifest, h.backups, .inl rfl, h.others, h.vouched⟩

theorem noManifest (hbackups : t.backups = none) :
    Clean job committed { t with manifest := none } :=
  ⟨h.temporary, .inl rfl, h.backups, h.staged, h.others, fun _ _ => hbackups⟩

end

end Clean

/-- The backup directory holds exactly the backups still to be removed. -/
structure Left (backups : TextMap Backup) (rest : List (String × Backup)) (files : Files) :
    Prop where
  known : ∀ backup ∈ rest, backup ∈ backups.toList
  ids : (rest.map Prod.fst).Nodup
  files : ∀ (name : String) (bytes : Bytes), files[name]? = some bytes ↔
    ∃ backup ∈ rest, recommendationFilename backup.1 = name ∧ backup.2.1 = bytes

variable {backups : TextMap Backup}

variable {backup : String × Backup}

theorem Lists.get (h : Lists backups files) (hbackup : backup ∈ backups.toList) :
    files[recommendationFilename backup.1]? = some backup.2.1 := by
  rw [← h, mem_toList.mp hbackup]
  rfl

theorem Left.all (hjob : job.Sound env) (hlists : Lists backups files)
    (hcopies : Copies job committed files) : Left backups backups.toList files where
  known := fun _ h => h
  ids := by
    rw [toList_keys]
    exact keys_nodup
  files := by
    intro name bytes
    constructor
    · intro hfile
      obtain ⟨htarget, -⟩ := hcopies name bytes hfile
      obtain ⟨entry, -, rfl⟩ := hjob.isTarget_iff.mp htarget
      rw [← hlists, Option.map_eq_some_iff] at hfile
      obtain ⟨backup, hbackup, hbytes⟩ := hfile
      exact ⟨(entry.id, backup), mem_toList.mpr hbackup, rfl, hbytes⟩
    · rintro ⟨backup, hbackup, rfl, rfl⟩
      exact hlists.get hbackup

theorem Left.remove {rest : List (String × Backup)} (h : Left backups (backup :: rest) files) :
    Left backups rest (files.erase (recommendationFilename backup.1)) where
  known := fun b hb => h.known b (mem_cons_of_mem _ hb)
  ids := h.ids.of_cons
  files := by
    intro name bytes
    have hfresh : ∀ b ∈ rest, b.1 ≠ backup.1 := by
      have hids := h.ids
      rw [map_cons, nodup_cons] at hids
      intro b hb heq
      exact hids.1 (heq ▸ mem_map_of_mem hb)
    rw [get_erase]
    split
    · rename_i hname
      constructor
      · intro hnone
        cases hnone
      · rintro ⟨b, hb, hb', -⟩
        exact absurd (recommendationFilename_injective (hb'.trans hname.symm)) (hfresh b hb)
    · rename_i hname
      rw [h.files]
      constructor
      · rintro ⟨b, hb, hb', hbytes⟩
        rcases mem_cons.mp hb with rfl | hb
        · exact absurd hb' hname
        · exact ⟨b, hb, hb', hbytes⟩
      · rintro ⟨b, hb, hb', hbytes⟩
        exact ⟨b, mem_cons_of_mem _ hb, hb', hbytes⟩

theorem Left.empty (h : Left backups [] files) : files = ∅ := by
  apply TextMap.ext
  intro name
  rw [get_empty, Option.eq_none_iff_forall_ne_some]
  intro bytes hfile
  obtain ⟨_, hmem, -⟩ := (h.files name bytes).mp hfile
  cases hmem

variable {inventory : Inventory} {recovery : Recovery}

theorem removeTemporary_meets (hv : Validated job inventory t recovery)
    (hclean : Clean job committed { t with temporary := none }) :
    Meets (removeTemporary recovery) (job.disk (job.settled committed) t)
      (fun _ d => d = job.disk (job.settled committed) { t with temporary := none })
      (fun _ _ => False) (Phase job committed) := by
  unfold removeTemporary
  rw [hv.transaction, hv.name]
  cases htemporary : t.temporary with
  | none =>
    refine Meets.pure' ?_
    rw [← htemporary]
  | some written => exact meets_stepTransaction hclean.phase rfl

variable {u : Transaction}

theorem removeBackups_meets (hjob : job.Sound env) (hv : Validated job inventory t recovery)
    (hsame : u.backups = t.backups) (hclean : Clean job committed u) :
    Meets (removeBackups recovery) (job.disk (job.settled committed) u)
      (fun _ d => d = job.disk (job.settled committed) { u with backups := none })
      (fun _ _ => False) (Phase job committed) := by
  unfold removeBackups
  rw [hv.transaction, hv.name]
  cases hbackups : t.backups with
  | none =>
    refine Meets.pure' ?_
    rw [← hbackups, ← hsame]
  | some backups =>
    rw [hbackups] at hsame
    have hlists : Lists recovery.backups backups := by
      have h := hv.backups
      rw [hbackups] at h
      exact h
    have hcopies : Copies job committed backups := hclean.backups backups hsame
    -- the loop keeps the directory equal to what is left of the list
    let inv : List (String × Backup) → Disk → Prop := fun rest d => ∃ files,
      d = job.disk (job.settled committed) { u with backups := some files } ∧
        Left recovery.backups rest files
    have hloop : Meets (Prog.forEach (removeBackup job.name) recovery.backups.toList)
        (job.disk (job.settled committed) u) (fun _ d => inv [] d) (fun _ _ => False)
        (Phase job committed) := by
      refine Meets.forEach' ?_ _ ⟨backups, by rw [← hsame], Left.all hjob hlists hcopies⟩
      rintro backup rest d ⟨files, rfl, hleft⟩
      have hfewer : ∀ (name : String) (bytes : Bytes),
          (files.erase (recommendationFilename backup.1))[name]? = some bytes →
            backups[name]? = some bytes := by
        intro name bytes hfile
        obtain ⟨b, hb, rfl, rfl⟩ := (hleft.remove.files name bytes).mp hfile
        exact hlists.get (hleft.known b (mem_cons_of_mem _ hb))
      have hfile : files[recommendationFilename backup.1]? = some backup.2.1 :=
        (hleft.files _ _).mpr ⟨backup, mem_cons_self, rfl, rfl⟩
      unfold removeBackup
      refine Meets.bind' (meets_checkTransaction (a := ()) ?_ (meets_stepTransaction ?_ ?_))
      · simp only [Transaction.backup, Option.bind_some, hfile]
        rw [refuseInvalid_ok]
        simp
      · exact (hclean.fewerBackups hsame hfewer).phase
      · exact ⟨_, rfl, hleft.remove⟩
    refine Meets.seq hloop ?_
    rintro _ d ⟨files, rfl, hleft⟩
    have hempty := hleft.empty
    subst hempty
    refine Meets.bind' (meets_checkTransaction (a := ()) ?_ (meets_stepTransaction ?_ rfl))
    · rw [Option.all_some, Std.ExtTreeMap.isEmpty_empty]
      rfl
    · exact hclean.noBackups.phase

theorem removeStaged_meets (hv : Validated job inventory t recovery) (hsame : u.staged = t.staged)
    (hclean : Clean job committed u) :
    Meets (removeStaged recovery) (job.disk (job.settled committed) u)
      (fun _ d => d = job.disk (job.settled committed) { u with staged := none })
      (fun _ _ => False) (Phase job committed) := by
  unfold removeStaged
  rw [hv.transaction, hv.name]
  cases hstaged : t.staged with
  | none =>
    refine Meets.pure' ?_
    rw [← hstaged, ← hsame]
  | some staged =>
    rw [hstaged] at hsame
    have hempty : staged = ∅ := by
      rcases hclean.staged with h | h
      · rw [h] at hsame
        cases hsame
      · rw [h] at hsame
        cases hsame
        rfl
    refine Meets.bind' (meets_checkTransaction (a := ()) ?_ (meets_stepTransaction ?_ rfl))
    · rw [hsame, hempty, Option.all_some, Std.ExtTreeMap.isEmpty_empty]
      rfl
    · exact hclean.noStaged.phase

theorem removeManifest_meets (hv : Validated job inventory t recovery)
    (hsame : u.manifest = t.manifest) (hbackups : u.backups = none) (hclean : Clean job committed u) :
    Meets (removeManifest recovery) (job.disk (job.settled committed) u)
      (fun _ d => d = job.disk (job.settled committed) { u with manifest := none })
      (fun _ _ => False) (Phase job committed) := by
  unfold removeManifest
  rw [hv.transaction, hv.name]
  cases hmanifest : t.manifest with
  | none =>
    refine Meets.pure' ?_
    rw [← hmanifest, ← hsame]
  | some bytes => exact meets_stepTransaction (hclean.noManifest hbackups).phase rfl

theorem erase_singleton {name : String} :
    ((∅ : TextMap Transaction).insert name t).erase name = ∅ := by
  apply TextMap.ext
  intro a
  rw [get_erase]
  split
  · rw [get_empty]
  · rename_i h
    rw [get_insert_ne h]

theorem removeTransaction_meets (hfiles : files = job.settled committed) :
    Meets (removeTransaction job.name) (job.disk files .new)
      (fun _ d => d = ⟨files, some ∅⟩) (fun _ _ => False) (Phase job committed) := by
  have hlast : ({ job.disk files .new with
      journal := (job.disk files .new).journal.map (fun journal => journal.erase job.name) } : Disk) =
      ⟨files, some ∅⟩ := by
    simp only [Job.disk, Option.map_some, erase_singleton]
  refine Meets.bind' (meets_checkTransaction (a := ()) rfl (Meets.step' ?_ ?_))
  · rw [hlast]
    exact .inl ⟨hfiles, .inr rfl⟩
  · exact hlast

theorem removeJournal_meets (hfiles : files = job.settled committed) :
    Meets removeJournal ⟨files, some ∅⟩ (fun _ d => d = ⟨files, none⟩) (fun _ _ => False)
      (Phase job committed) := by
  unfold removeJournal
  refine Meets.bind' (Meets.check' ?_ ?_)
  · intro _ _
    exact Meets.step' (.inl ⟨hfiles, .inl rfl⟩) rfl
  · intro e he
    rw [Option.all_some, Std.ExtTreeMap.isEmpty_empty] at he
    cases he

theorem cleanJournal_meets (hjob : job.Sound env) (hv : Validated job inventory t recovery)
    (hclean : Clean job committed { t with temporary := none }) :
    Meets (cleanJournal recovery) (job.disk (job.settled committed) t)
      (fun _ d => d = ⟨job.settled committed, none⟩) (fun _ _ => False) (Phase job committed) := by
  unfold cleanJournal
  refine Meets.seq (removeTemporary_meets hv hclean) ?_
  rintro _ _ rfl
  refine Meets.seq (removeBackups_meets hjob hv rfl hclean) ?_
  rintro _ _ rfl
  refine Meets.seq (removeStaged_meets hv rfl hclean.noBackups) ?_
  rintro _ _ rfl
  refine Meets.seq (removeManifest_meets hv rfl rfl hclean.noBackups.noStaged) ?_
  rintro _ _ rfl
  have hnew : (⟨none, none, none, none, t.others⟩ : Transaction) = .new := by
    have hothers : t.others = [] := hclean.others
    rw [hothers]
    rfl
  change Meets _ (job.disk _ ⟨none, none, none, none, t.others⟩) _ _ _
  rw [hnew, hv.name]
  refine Meets.seq (removeTransaction_meets rfl) ?_
  rintro _ _ rfl
  exact removeJournal_meets rfl

end cleaning

/-! ## Removing the targets -/

section removing
variable {env : Env} {job : Job} {t : Transaction} {inventory : Inventory} {recovery : Recovery}

/-- The record files between the original ones and those that are kept, the targets
of `rest` not yet handled. -/
structure Between (job : Job) (start : Files) (rest : List RollupTransactionEntry) (files : Files) :
    Prop where
  fewer : Part files start
  part : Part files job.before
  kept : Part job.kept files
  ahead : ∀ entry ∈ rest, files[recommendationFilename entry.id]? =
    start[recommendationFilename entry.id]?
  done : ∀ entry ∈ job.entries, entry ∉ rest → files[recommendationFilename entry.id]? = none

variable {start : Files}

variable {rest : List RollupTransactionEntry} {entry : RollupTransactionEntry}

theorem Between.remove (hjob : job.Sound env) (hentry : entry ∈ job.entries) (hnew : entry ∉ rest)
    (hrest : ∀ e ∈ rest, e ∈ job.entries) (h : Between job start (entry :: rest) files) :
    Between job start rest (files.erase (recommendationFilename entry.id)) := by
  have hsub : ∀ (name : String) (bytes : Bytes),
      (files.erase (recommendationFilename entry.id))[name]? = some bytes →
        files[name]? = some bytes := by
    intro name bytes hfile
    rw [get_erase] at hfile
    split at hfile
    · cases hfile
    · exact hfile
  refine ⟨fun n b hb => h.fewer n b (hsub n b hb), fun n b hb => h.part n b (hsub n b hb),
    ?_, ?_, ?_⟩
  · intro name bytes hbytes
    rw [get_erase_ne]
    · exact h.kept name bytes hbytes
    · rintro rfl
      rw [hjob.kept_entry hentry] at hbytes
      cases hbytes
  · intro e he
    rw [get_erase_ne]
    · exact h.ahead e (mem_cons_of_mem _ he)
    · intro hname
      have heq := hjob.entry_eq (hrest e he) hentry (recommendationFilename_injective hname).symm
      exact hnew (heq ▸ he)
  · intro e he hout
    by_cases heq : e = entry
    · rw [heq, get_erase_self]
    · rw [get_erase_ne]
      · refine h.done e he ?_
        rw [mem_cons, not_or]
        exact ⟨heq, hout⟩
      · intro hname
        exact heq (hjob.entry_eq he hentry (recommendationFilename_injective hname).symm)

theorem Between.skip (hnone : start[recommendationFilename entry.id]? = none)
    (h : Between job start (entry :: rest) files) : Between job start rest files where
  fewer := h.fewer
  part := h.part
  kept := h.kept
  ahead := fun e he => h.ahead e (mem_cons_of_mem _ he)
  done := by
    intro e he hout
    by_cases heq : e = entry
    · rw [heq, h.ahead entry mem_cons_self, hnone]
    · refine h.done e he ?_
      rw [mem_cons, not_or]
      exact ⟨heq, hout⟩

theorem Between.finished (hjob : job.Sound env) (h : Between job start [] files) :
    files = job.kept := by
  apply TextMap.ext
  intro name
  by_cases htarget : job.isTarget name = true
  · obtain ⟨entry, hentry, rfl⟩ := hjob.isTarget_iff.mp htarget
    rw [h.done entry hentry (by simp), hjob.kept_entry hentry]
  · rw [Job.kept_get, if_neg htarget]
    apply Option.ext
    intro bytes
    constructor
    · exact h.part name bytes
    · intro hbytes
      refine h.kept name bytes ?_
      rw [Job.kept_get, if_neg htarget]
      exact hbytes

theorem removeTargets_meets (hjob : job.Sound env) (hreads : Reads env start inventory)
    (hpart : Part start job.before)
    (hkept : Part job.kept start)
    (hcrash : ∀ rest files, Between job start rest files → Phase job true (job.disk files t)) :
    Meets (Prog.forEach (removeTarget inventory.leaves) (job.selected true)) (job.disk start t)
      (fun _ d => d = job.disk job.kept t) (fun _ _ => False) (Phase job true) := by
  let inv : List RollupTransactionEntry → Disk → Prop := fun rest d =>
    rest.Nodup ∧ (∀ entry ∈ rest, entry ∈ job.entries) ∧
      ∃ files, d = job.disk files t ∧ Between job start rest files
  have hloop : Meets (Prog.forEach (removeTarget inventory.leaves) (job.selected true))
      (job.disk start t) (fun _ d => inv [] d) (fun _ _ => False) (Phase job true) := by
    refine Meets.forEach' ?_ _ ⟨selected_nodup hjob, fun entry he => (mem_selected hjob).mp he,
      start, rfl, fun _ _ h => h, hpart, hkept, fun _ _ => rfl,
      fun entry he hout => absurd ((mem_selected hjob).mpr he) hout⟩
    rintro entry rest d ⟨hnodup, hentries, files, rfl, hbetween⟩
    have hentry := hentries entry mem_cons_self
    have hlater : ∀ e ∈ rest, e ∈ job.entries := fun e he => hentries e (mem_cons_of_mem _ he)
    unfold removeTarget
    rw [hreads.leaves]
    cases hfile : start[recommendationFilename entry.id]? with
    | none =>
      exact Meets.pure' ⟨hnodup.of_cons, hlater, files, rfl, hbetween.skip hfile⟩
    | some captured =>
      have hnext := hbetween.remove hjob hentry (nodup_cons.mp hnodup).1 hlater
      have hnow : files[entry.target]? = some captured := by
        rw [hjob.target hentry, hbetween.ahead entry mem_cons_self, hfile]
      rw [← hjob.target hentry] at hnext
      refine Meets.bind' (Meets.check' ?_ ?_)
      · intro _ _
        exact Meets.step' (hcrash _ _ hnext) ⟨hnodup.of_cons, hlater, _, rfl, hnext⟩
      · intro e he
        simp only [Job.disk, hnow] at he
        simp [refuseInvalid] at he
  refine hloop.mono ?_ (fun _ _ h => h) (fun _ h => h)
  rintro _ d ⟨-, -, files, rfl, hbetween⟩
  rw [hbetween.finished hjob]

end removing

/-! ## Recovery -/

section recovery
variable {env : Env} {job : Job} {committed : Bool}

variable {recovery : Recovery}

variable {crash : Disk → Prop}

theorem settled_part (committed : Bool) (name : String) (bytes : Bytes)
    (h : (job.settled committed)[name]? = some bytes) : job.before[name]? = some bytes := by
  cases committed with
  | false => exact h
  | true => exact Job.kept_part name bytes h

theorem before_graph (hjob : job.Sound env) {inventory : Inventory}
    (hreads : Reads env job.before inventory) : Graph.Ok env.digests inventory.records := by
  refine hjob.graph.congr hreads.ids ?_
  intro record
  rw [hreads.mem]
  exact hjob.reads.mem record

theorem settled_graph (hjob : job.Sound env) {inventory : Inventory}
    (hreads : Reads env (job.settled committed) inventory) :
    Graph.Ok env.digests inventory.records := by
  cases committed with
  | false => exact before_graph hjob hreads
  | true => exact kept_graph hjob hreads

variable {post : Unit → Disk → Prop}

theorem checkGraph_meets (hjob : job.Sound env) (h : post () (job.disk (job.settled committed) t)) :
    Meets (checkGraph env) (job.disk (job.settled committed) t) post (fun _ _ => False) crash := by
  obtain ⟨inventory, hread⟩ := hjob.reads.part (settled_part committed)
  have hgraph := validateGraphRecords_ok_iff.mpr (settled_graph hjob (readRecords_reads hread))
  refine Meets.check' (fun _ _ => h) ?_
  intro e he
  change (asInvalid (readRecords env (job.settled committed)) >>= _) = _ at he
  rw [asInvalid_ok.mpr hread] at he
  change asInvalid (validateGraphRecords env.digests inventory.records) = _ at he
  rw [asInvalid_ok.mpr hgraph] at he
  cases he

theorem finishRecovery_settled (hjob : job.Sound env) {inventory : Inventory}
    (hv : Validated job inventory t recovery) (huncommitted : recovery.committed = false)
    (hclean : Clean job committed { t with temporary := none }) :
    Meets (finishRecovery env recovery) (job.disk (job.settled committed) t)
      (fun _ d => d = ⟨job.settled committed, none⟩) (fun _ _ => False) (Phase job committed) := by
  unfold finishRecovery
  rw [if_neg (by rw [huncommitted]; simp)]
  refine Meets.bind' (checkGraph_meets hjob ?_)
  exact cleanJournal_meets hjob hv hclean

theorem finishRecovery_committed (hjob : job.Sound env) {inventory : Inventory} {start : Files}
    (hv : Validated job inventory t recovery) (hcommitted : recovery.committed = true)
    (hreads : Reads env start inventory) (hpart : Part start job.before)
    (hkept : Part job.kept start)
    (hcrash : ∀ rest files, Between job start rest files → Phase job true (job.disk files t))
    (hclean : Clean job true t) :
    Meets (finishRecovery env recovery) (job.disk start t)
      (fun _ d => d = ⟨job.settled true, none⟩) (fun _ _ => False) (Phase job true) := by
  unfold finishRecovery
  rw [if_pos hcommitted, hv.leaves, hv.entries hcommitted]
  refine Meets.seq (removeTargets_meets hjob hreads hpart hkept hcrash) ?_
  rintro _ _ rfl
  change Meets _ (job.disk (job.settled true) t) _ _ _
  refine Meets.bind' (checkGraph_meets hjob ?_)
  refine cleanJournal_meets hjob hv ?_
  have hsame : { t with temporary := none } = t := by
    rw [← hclean.temporary]
  rw [hsame]
  exact hclean

variable {expected : Option (TextMap Bytes)}

variable {d : Disk}

theorem meets_recoverExpected {pending : Pending}
    (hvalid : validateJournal env expected d = .ok pending) (h : Meets (match pending with
      | .absent => Pure.pure ()
      | .empty => removeJournal
      | .transaction recovery => finishRecovery env recovery) d post (fun _ _ => False) crash) :
    Meets (recoverExpected env expected) d post (fun _ _ => False) crash := by
  refine Meets.bind' (Meets.check' ?_ ?_)
  · intro found hfound
    rw [hvalid] at hfound
    cases hfound
    exact h
  · intro e he
    rw [hvalid] at he
    cases he

theorem validateJournal_job (hjob : job.Sound env) {inventory : Inventory}
    (hread : readExpected env expected files = .ok inventory)
    (hvalid : validateTransaction env inventory job.name t = .ok recovery) :
    validateJournal env expected (job.disk files t) = .ok (.transaction recovery) := by
  unfold validateJournal
  rw [bind_eq_ok]
  refine ⟨inventory, hread, ?_⟩
  change validatePending env inventory ((∅ : TextMap Transaction).insert job.name t) = _
  unfold validatePending
  rw [bind_eq_ok]
  refine ⟨some (job.name, t), pendingTransaction_ok hjob t, ?_⟩
  rw [bind_eq_ok]
  exact ⟨recovery, hvalid, rfl⟩

/-- Recovery from any state of a phase succeeds, settles it, and a crash leaves it in
that phase. -/
theorem recoverExpected_meets (hjob : job.Sound env) (hphase : Phase job committed d)
    (hexpected : Expects job d.files expected) :
    Meets (recoverExpected env expected) d (fun _ e => e = ⟨job.settled committed, none⟩)
      (fun _ _ => False) (Phase job committed) := by
  rcases hphase with ⟨hfiles, hjournal⟩ | ⟨t, rfl, hclean⟩ | ⟨rfl, t, rfl, hdraft⟩ |
    ⟨rfl, files, t, rfl, hremoving⟩
  · obtain ⟨files, journal⟩ := d
    obtain rfl : files = job.settled committed := hfiles
    obtain ⟨inventory, hread, hreads⟩ := readExpected_ok hjob hexpected (settled_part committed)
    have hgraph := asInvalid_ok.mpr (validateGraphRecords_ok_iff.mpr (settled_graph hjob hreads))
    rcases hjournal with h | h
    · obtain rfl : journal = none := h
      have hvalid : validateJournal env expected ⟨job.settled committed, none⟩ = .ok .absent := by
        unfold validateJournal
        rw [bind_eq_ok]
        exact ⟨inventory, hread, by rw [seq_eq_ok]; exact ⟨hgraph, rfl⟩⟩
      exact meets_recoverExpected hvalid (Meets.pure' rfl)
    · obtain rfl : journal = some ∅ := h
      have hnone : pendingTransaction env ∅ = .ok none := by
        unfold pendingTransaction
        rw [seq_eq_ok, boundNames_ok, Std.ExtTreeMap.size_empty, toList_empty]
        exact ⟨Nat.zero_le _, rfl⟩
      have hvalid : validateJournal env expected ⟨job.settled committed, some ∅⟩ = .ok .empty := by
        unfold validateJournal
        rw [bind_eq_ok]
        refine ⟨inventory, hread, ?_⟩
        change validatePending env inventory ∅ = _
        unfold validatePending
        rw [bind_eq_ok]
        exact ⟨none, hnone, by rw [seq_eq_ok]; exact ⟨hgraph, rfl⟩⟩
      exact meets_recoverExpected hvalid (removeJournal_meets rfl)
  · obtain ⟨inventory, hread, hreads⟩ := readExpected_ok hjob hexpected (settled_part committed)
    have hsame : { t with temporary := none } = t := by
      rw [← hclean.temporary]
    cases committed with
    | false =>
      obtain ⟨recovery, hvalid, hc, hv⟩ := validate_draft hjob hreads (.inl hclean)
      refine meets_recoverExpected (validateJournal_job hjob hread hvalid) ?_
      exact finishRecovery_settled hjob hv hc (by rw [hsame]; exact hclean)
    | true =>
      rcases hclean.manifest with hmanifest | hmanifest
      · obtain ⟨recovery, hvalid, hc, hv⟩ := validate_unmarked job
          (kept_graph hjob hreads) hmanifest hclean.temporary (hclean.vouched rfl hmanifest)
          hclean.staged hclean.others
        refine meets_recoverExpected (validateJournal_job hjob hread hvalid) ?_
        exact finishRecovery_settled hjob hv hc (by rw [hsame]; exact hclean)
      · obtain ⟨recovery, hvalid, hc, hv⟩ := validate_committed hjob hreads Job.kept_part
          (fun _ _ h => h) hclean hmanifest (.inr rfl)
        refine meets_recoverExpected (validateJournal_job hjob hread hvalid) ?_
        refine finishRecovery_committed hjob hv hc hreads Job.kept_part (fun _ _ h => h) ?_ hclean
        intro rest files hbetween
        have hfiles : files = job.settled true := by
          apply TextMap.ext
          intro name
          apply Option.ext
          intro bytes
          exact ⟨hbetween.fewer name bytes, hbetween.kept name bytes⟩
        rw [hfiles]
        exact hclean.phase
  · obtain ⟨inventory, hread, hreads⟩ := readExpected_ok hjob hexpected (fun _ _ h => h)
    obtain ⟨recovery, hvalid, hc, hv⟩ := validate_draft hjob hreads (.inr hdraft)
    refine meets_recoverExpected (validateJournal_job hjob hread hvalid) ?_
    change Meets _ (job.disk (job.settled false) t) _ _ _
    exact finishRecovery_settled hjob hv hc hdraft.clean
  · obtain ⟨inventory, hread, hreads⟩ := readExpected_ok hjob hexpected hremoving.part
    obtain ⟨recovery, hvalid, hc, hv⟩ := validate_committed hjob hreads hremoving.part
      hremoving.kept hremoving.clean hremoving.manifest (.inl hremoving.backups)
    refine meets_recoverExpected (validateJournal_job hjob hread hvalid) ?_
    refine finishRecovery_committed hjob hv hc hreads hremoving.part hremoving.kept ?_
      hremoving.clean
    intro rest files' hbetween
    exact .inr (.inr (.inr ⟨rfl, files', t, rfl, hremoving.clean, hremoving.manifest,
      hremoving.backups, hbetween.part, hbetween.kept⟩))

end recovery

/-! ## Publishing -/

section publishing
variable {env : Env} {job : Job}

/-- The backup directory when the entries of `done` are backed up. -/
def BackedUp (job : Job) (done : List RollupTransactionEntry) (backups : Files) : Prop :=
  ∀ name : String, backups[name]? =
    if done.any (fun entry => entry.target == name) then job.before[name]? else none

theorem BackedUp.copies {done rest : List RollupTransactionEntry}
    (hsplit : job.entries = done ++ rest) (h : BackedUp job done backups) :
    Copies job false backups := by
  intro name bytes hbytes
  rw [h name] at hbytes
  split at hbytes
  · rename_i hany
    refine ⟨?_, bytes, hbytes, prefix_refl _, fun _ => rfl⟩
    rw [Job.isTarget, hsplit, any_append, hany]
    rfl
  · cases hbytes

/-- The transaction directory while the backups are written. -/
def backingUp (backups : Files) : Transaction := ⟨none, none, some backups, some ∅, []⟩

theorem clean_backingUp (h : Copies job false backups) :
    Clean job false (backingUp backups) where
  temporary := rfl
  manifest := .inl rfl
  backups := by
    rintro found ⟨⟩
    exact h
  staged := .inr rfl
  others := rfl
  vouched := by
    intro hc
    cases hc

theorem backUp_meets (hjob : job.Sound env) :
    Meets (Prog.forEach (backUp job.name job.removal.inventory.leaves) job.entries)
      (job.disk job.before (backingUp ∅))
      (fun _ d => d = job.disk job.before (backingUp job.saved)) (fun _ _ => False)
      (Phase job false) := by
  let inv : List RollupTransactionEntry → Disk → Prop := fun rest d => ∃ backups done,
    d = job.disk job.before (backingUp backups) ∧ job.entries = done ++ rest ∧
      BackedUp job done backups
  have hloop : Meets (Prog.forEach (backUp job.name job.removal.inventory.leaves) job.entries)
      (job.disk job.before (backingUp ∅)) (fun _ d => inv [] d) (fun _ _ => False)
      (Phase job false) := by
    refine Meets.forEach' ?_ _ ⟨∅, [], rfl, rfl, fun name => get_empty⟩
    rintro entry rest d ⟨backups, done, rfl, hsplit, hdone⟩
    have hentry : entry ∈ job.entries := by rw [hsplit]; simp
    obtain ⟨full, hfull, -⟩ := hjob.entry entry hentry
    have htarget := hjob.target hentry
    have hnew : done.any (fun e => e.target == entry.target) = false := by
      rw [any_eq_false]
      intro e he heq
      have heEntry : e ∈ job.entries := by rw [hsplit]; exact mem_append_left _ he
      have hid : e.id = entry.id := by
        refine recommendationFilename_injective ?_
        rw [← hjob.target heEntry, ← htarget]
        exact of_decide_eq_true heq
      have hnodup := hjob.ids_nodup
      rw [hsplit, map_append, map_cons, nodup_append] at hnodup
      exact hnodup.2.2 _ (mem_map_of_mem he) _ mem_cons_self hid
    have hleaf : (job.removal.inventory.leaves[entry.id]?).getD [] = full := by
      rw [hjob.reads.leaves, hfull]
      rfl
    obtain ⟨record, hcanonical⟩ := hjob.reads.canonical _ full hfull
    unfold backUp writeBackup
    rw [hleaf]
    refine meets_writeLeaf ?_ hcanonical.bounded ?_ ?_
    · change backups[entry.target]? = none
      rw [hdone, hnew]
      rfl
    · intro written hwritten
      refine (clean_backingUp ?_).phase
      intro name bytes hbytes
      rw [get_insert] at hbytes
      split at hbytes
      · rename_i hname
        cases hbytes
        rw [← hname, htarget]
        exact ⟨hjob.isTarget_iff.mpr ⟨entry, hentry, rfl⟩, full, hfull, hwritten, by simp⟩
      · exact hdone.copies hsplit name bytes hbytes
    · refine ⟨backups.insert entry.target full, done ++ [entry], rfl, by rw [hsplit]; simp, ?_⟩
      intro name
      rw [get_insert, any_append]
      by_cases hname : entry.target = name
      · rw [if_pos hname, ← hname, htarget]
        simp [htarget, hfull]
      · rw [if_neg hname, hdone]
        simp [hname]
  refine hloop.mono ?_ (fun _ _ h => h) (fun _ h => h)
  rintro _ d ⟨backups, done, rfl, hsplit, hdone⟩
  have hsaved : backups = job.saved := by
    apply TextMap.ext
    intro name
    rw [hdone, Job.saved_get, Job.isTarget, hsplit, append_nil]
  rw [hsaved]

theorem copies_saved (complete : Bool) : Copies job complete job.saved := by
  intro name bytes hbytes
  rw [Job.saved_get] at hbytes
  split at hbytes
  · rename_i htarget
    exact ⟨htarget, bytes, hbytes, prefix_refl _, fun _ => rfl⟩
  · cases hbytes

/-- The transaction directory once the backups are complete. -/
def backedUp (job : Job) (manifest temporary : Option Bytes) : Transaction :=
  ⟨manifest, temporary, some job.saved, some ∅, []⟩

variable {manifest : Option Bytes}

theorem clean_backedUp {committed : Bool}
    (h : manifest = some (job.manifestBytes committed) ∨ (manifest = none ∧ committed = false)) :
    Clean job committed (backedUp job manifest none) where
  temporary := rfl
  manifest := by
    rcases h with h | h
    · exact .inr h
    · exact .inl h.1
  backups := by
    rintro found ⟨⟩
    exact copies_saved committed
  staged := .inr rfl
  others := rfl
  vouched := by
    intro hc hnone
    rcases h with h | h
    · change manifest = none at hnone
      rw [h] at hnone
      cases hnone
    · rw [h.2] at hc
      cases hc

theorem stageManifest_meets {bytes : Bytes} (hbounded : bytes.length ≤ byteLimit)
    {previous : Option Bytes} (hprevious : verifyPrevious previous manifest = .ok ())
    (hcrash : ∀ written, written <+: bytes →
      Phase job false (job.disk job.before (backedUp job manifest (some written)))) :
    Meets (stageManifest job.name bytes previous) (job.disk job.before (backedUp job manifest none))
      (fun _ d => d = job.disk job.before (backedUp job manifest (some bytes))) (fun _ _ => False)
      (Phase job false) := by
  unfold stageManifest writeTemporary
  refine Meets.bind' (meets_writeLeaf rfl hbounded hcrash ?_)
  exact meets_checkTransaction hprevious rfl

theorem makeTransaction_meets :
    Meets (makeTransaction job.name) ⟨job.before, some ∅⟩
      (fun _ d => d = job.disk job.before .new) (fun _ _ => False) (Phase job false) := by
  have hclean : Clean job false .new :=
    ⟨rfl, .inl rfl, by rintro _ ⟨⟩, .inl rfl, rfl, by intro hc; cases hc⟩
  unfold makeTransaction
  refine Meets.bind' (Meets.check' ?_ ?_)
  · intro _ _
    exact Meets.step' hclean.phase rfl
  · intro e he
    simp [Disk.transaction] at he

/-- Up to the rename to the committed manifest every crash leaves the original
records. -/
theorem stageRemoval_meets (hjob : job.Sound env) (hsome : job.entries ≠ [])
    {journal : Option (TextMap Transaction)} (hjournal : journal = none ∨ journal = some ∅) :
    Meets (stageRemoval job.name job.removal) ⟨job.before, journal⟩
      (fun _ d => d = job.disk job.before
        (backedUp job (some (job.manifestBytes false)) (some (job.manifestBytes true))))
      (fun _ _ => False) (Phase job false) := by
  have hempty : journal.getD ∅ = ∅ := by
    rcases hjournal with rfl | rfl
    · rfl
    · rfl
  have hfirst : Meets makeJournal ⟨job.before, journal⟩ (fun _ d => d = ⟨job.before, some ∅⟩)
      (fun _ _ => False) (Phase job false) := by
    refine Meets.step' ?_ ?_
    · rw [hempty]
      exact .inl ⟨rfl, .inr rfl⟩
    · rw [hempty]
  have hdraft : ∀ manifest written,
      ((manifest = none ∧ written <+: job.manifestBytes false) ∨
        (manifest = some (job.manifestBytes false) ∧ written <+: job.manifestBytes true)) →
      Phase job false (job.disk job.before (backedUp job manifest (some written))) := by
    intro manifest written h
    refine .inr (.inr (.inl ⟨rfl, _, rfl, hsome, clean_backedUp ?_, written, rfl, ?_⟩))
    · rcases h with h | h
      · exact .inr ⟨h.1, rfl⟩
      · exact .inl h.1
    · rcases h with h | h
      · exact .inl ⟨h.1, h.2, rfl⟩
      · exact .inr h
  unfold stageRemoval
  refine Meets.seq hfirst ?_
  rintro _ _ rfl
  refine Meets.seq makeTransaction_meets ?_
  rintro _ _ rfl
  refine Meets.bind' ?_
  unfold makeBackups
  refine Meets.bind' (meets_checkTransaction (a := ()) rfl (meets_stepTransaction ?_ ?_))
  · refine Clean.phase ?_
    refine ⟨rfl, .inl rfl, ?_, .inl rfl, rfl, by intro hc; cases hc⟩
    rintro _ ⟨⟩
    exact copies_empty false
  refine Meets.bind' ?_
  unfold makeStaged
  refine Meets.bind' (meets_checkTransaction (a := ()) rfl (meets_stepTransaction ?_ ?_))
  · exact (clean_backingUp (copies_empty false)).phase
  refine Meets.seq (backUp_meets hjob) ?_
  rintro _ _ rfl
  refine Meets.seq (stageManifest_meets (hjob.bounded false) rfl
    (fun written h => hdraft none written (.inl ⟨rfl, h⟩))) ?_
  rintro _ _ rfl
  refine Meets.bind' (meets_stepTransaction ?_ ?_)
  · exact (clean_backedUp (.inl rfl)).phase
  refine (stageManifest_meets (hjob.bounded true) ?_
    (fun written h => hdraft _ written (.inr ⟨rfl, h⟩)))
  exact refuseInvalid_ok.mpr (by simp [Job.manifestBytes])

/-- The record files without those of the given ids. -/
def withoutIds (files : Files) (ids : Finset String) : Files :=
  files.filter (fun name _ => decide (∀ id ∈ ids, recommendationFilename id ≠ name))

/-- Some transaction's manifest is the committed one. -/
def ManifestCommitted (env : Env) (d : Disk) : Prop :=
  ∃ name t bytes manifest, d.transaction name = some t ∧ t.manifest = some bytes ∧
    env.parseManifest bytes = some manifest ∧ manifest.committed = true

theorem disk_transaction_eq {found : Transaction} {name : String}
    (h : (job.disk files t).transaction name = some found) : found = t := by
  by_cases hname : job.name = name
  · rw [← hname, job.disk_transaction] at h
    cases h
    rfl
  · simp [Disk.transaction, Job.disk, get_insert_ne hname] at h

variable {d : Disk}

theorem not_committed_of_phase (hjob : job.Sound env) (h : Phase job false d) :
    ¬ ManifestCommitted env d := by
  rintro ⟨name, found, bytes, manifest, htransaction, hmanifest, hparse, hcommitted⟩
  have hno : ∀ t : Transaction,
      t.manifest = none ∨ t.manifest = some (job.manifestBytes false) → found = t → False := by
    rintro t ht rfl
    rw [hmanifest] at ht
    rcases ht with ht | ht
    · cases ht
    · cases ht
      rw [hjob.readsBack] at hparse
      cases hparse
      cases hcommitted
  rcases h with ⟨-, hjournal⟩ | ⟨t, rfl, hclean⟩ | ⟨-, t, rfl, hdraft⟩ | ⟨hc, -⟩
  · rcases hjournal with h | h
    · simp [Disk.transaction, h] at htransaction
    · simp [Disk.transaction, h] at htransaction
  · exact hno t hclean.manifest (disk_transaction_eq htransaction)
  · exact hno t hdraft.clean.manifest (disk_transaction_eq htransaction)
  · cases hc

/-- The rename puts the committed manifest in place; what follows settles it. -/
theorem publishRemoval_meets (hjob : job.Sound env) :
    Meets (publishRemoval env job.name job.removal) (job.disk job.before
        (backedUp job (some (job.manifestBytes false)) (some (job.manifestBytes true))))
      (fun _ d => d = ⟨job.settled true, none⟩) (fun _ _ => False) (Phase job true) := by
  have hphase : Phase job true
      (job.disk job.before (backedUp job (some (job.manifestBytes true)) none)) :=
    .inr (.inr (.inr ⟨rfl, _, _, rfl, clean_backedUp (.inl rfl), rfl, rfl, fun _ _ h => h,
      Job.kept_part⟩))
  unfold publishRemoval renameManifest
  refine Meets.bind' (meets_stepTransaction hphase ?_)
  exact recoverExpected_meets hjob hphase (.inr ⟨rfl, rfl⟩)

theorem publishRemoval_states (env : Env) (job : Job) :
    ∃ rest, (publishRemoval env job.name job.removal (job.disk job.before
        (backedUp job (some (job.manifestBytes false)) (some (job.manifestBytes true))))).states =
      job.disk job.before (backedUp job (some (job.manifestBytes true)) none) :: rest := by
  have hfirst : (renameManifest job.name (job.disk job.before
      (backedUp job (some (job.manifestBytes false)) (some (job.manifestBytes true))))).states =
      [job.disk job.before (backedUp job (some (job.manifestBytes true)) none)] := by
    unfold renameManifest stepTransaction
    simp only [Prog.step, Prog.during, nil_append]
    rw [job.disk_modify]
    rfl
  unfold publishRemoval
  rw [bind_states, hfirst]
  exact ⟨_, rfl⟩

variable {uuid : String} {start : Disk} {removal : PreparedRemoval}

theorem publish_phase {before : List Disk} {crashed : Disk}
    (hjob : (removalJob uuid start.files removal).Sound env)
    (hjournal : start.journal = none ∨ start.journal = some ∅)
    (hcrash : CrashesAt (publish env uuid removal) start before crashed) :
    ((∀ d ∈ before ++ [crashed], ¬ ManifestCommitted env d) ∧
        Phase (removalJob uuid start.files removal) false crashed) ∨
      ((∃ d ∈ before ++ [crashed], ManifestCommitted env d) ∧
        Phase (removalJob uuid start.files removal) true crashed) := by
  have hstart : Phase (removalJob uuid start.files removal) false start := .inl ⟨rfl, hjournal⟩
  have hidle : [start] = before ++ [crashed] →
      (∀ d ∈ before ++ [crashed], ¬ ManifestCommitted env d) ∧
        Phase (removalJob uuid start.files removal) false crashed := by
    intro heq
    have hcrashed : crashed = start := by
      have hmem : crashed ∈ [start] := by rw [heq]; simp
      exact mem_singleton.mp hmem
    rw [← heq, hcrashed]
    refine ⟨?_, hstart⟩
    intro d hd
    rw [mem_singleton.mp hd]
    exact not_committed_of_phase hjob hstart
  have hnothing : ∀ later, [start] = before ++ crashed :: later →
      [start] = before ++ [crashed] := by
    intro later heq
    cases before with
    | nil =>
      obtain ⟨rfl, -⟩ := List.cons.inj heq
      rfl
    | cons x before => simp at heq
  unfold publish at hcrash
  rcases hcrash.bind_cases with ⟨later, hlater⟩ | ⟨_, mid, later, -, hbefore, hstates⟩
  · exact .inl (hidle (hnothing later hlater))
  change before = [start] ++ mid at hbefore
  split at hstates
  · change [] = mid ++ crashed :: later at hstates
    simp at hstates
  rename_i hentries
  have hsome : (removalJob uuid start.files removal).entries ≠ [] := by
    intro h
    exact hentries (by
      change removal.entries = [] at h
      rw [h]
      rfl)
  have hstage : Meets (stageRemoval ("tx-" ++ uuid) removal) start _ (fun _ _ => False)
      (Phase (removalJob uuid start.files removal) false) :=
    stageRemoval_meets hjob hsome hjournal
  have hrest : CrashesAt (stageRemoval ("tx-" ++ uuid) removal >>= fun _ =>
      publishRemoval env ("tx-" ++ uuid) removal) start before crashed := by
    refine ⟨later, ?_⟩
    rw [hbefore]
    exact congrArg (List.cons _) hstates
  rcases hrest.bind_cases with ⟨later', hlater⟩ | ⟨u, mid', later', hstaged, hbefore', hpub⟩
  · -- a crash while staging: every disk so far is in the uncommitted phase
    have hphase : ∀ d ∈ before ++ [crashed], Phase (removalJob uuid start.files removal) false d := by
      intro d hd
      have hmem : d ∈ start :: (stageRemoval ("tx-" ++ uuid) removal start).states := by
        rw [hlater]
        rcases mem_append.mp hd with hd | hd
        · exact mem_append_left _ hd
        · rw [mem_singleton.mp hd]
          simp
      rcases mem_cons.mp hmem with rfl | hmem
      · exact hstart
      · exact hstage.states d hmem
    exact .inl ⟨fun d hd => not_committed_of_phase hjob (hphase d hd), hphase _ (by simp)⟩
  · have hlast := hstage.ok u hstaged
    rw [hlast] at hpub
    have hmeets := publishRemoval_meets hjob
    obtain ⟨rest, hfirst⟩ := publishRemoval_states env (removalJob uuid start.files removal)
    refine .inr ⟨?_, hmeets.states crashed ?_⟩
    · -- the rename itself is among the disks so far
      refine ⟨_, ?_, "tx-" ++ uuid, _, _, _,
        (removalJob uuid start.files removal).disk_transaction start.files
          (backedUp (removalJob uuid start.files removal)
            (some ((removalJob uuid start.files removal).manifestBytes true)) none),
        rfl, hjob.readsBack true, rfl⟩
      change (publishRemoval env ("tx-" ++ uuid) removal _).states = _ at hfirst
      change (publishRemoval env ("tx-" ++ uuid) removal _).states = _ at hpub
      rw [hfirst] at hpub
      rw [hbefore']
      cases mid' with
      | nil =>
        obtain ⟨rfl, -⟩ := List.cons.inj hpub
        exact mem_append_right _ mem_cons_self
      | cons x mid' =>
        obtain ⟨rfl, -⟩ := List.cons.inj hpub
        exact mem_append_left _ (mem_append_right _ mem_cons_self)
    · change crashed ∈ (publishRemoval env ("tx-" ++ uuid) removal _).states
      rw [hpub]
      simp

variable {select : Recommendation → Bool}

theorem kept_eq_withoutIds {inventory : Inventory} (hinspect : inspect env start = .ok inventory)
    (hprepare : prepareSelected env inventory select = .ok removal)
    (hjob : (removalJob uuid start.files removal).Sound env) :
    (removalJob uuid start.files removal).kept =
      withoutIds start.files (removedIds inventory.records select) := by
  have hreads := readRecords_reads (inspect_ok hinspect).1
  have hp := prepareSelected_ok hprepare
  apply TextMap.ext
  intro name
  rw [Job.kept_get, withoutIds, get_filter]
  change (if (removalJob uuid start.files removal).isTarget name then none
    else start.files[name]?) = _
  cases hfile : start.files[name]? with
  | none => simp
  | some bytes =>
    obtain ⟨record, hcanonical⟩ := hreads.canonical name bytes hfile
    have hname := hcanonical.filename
    have hrecord : record ∈ inventory.records := by
      refine (hreads.mem record).mpr ⟨bytes, ?_, hcanonical.parsed⟩
      rw [← hname]
      exact hfile
    have htarget : (removalJob uuid start.files removal).isTarget name = true ↔
        ∃ id ∈ removedIds inventory.records select, recommendationFilename id = name := by
      rw [hjob.isTarget_iff]
      constructor
      · rintro ⟨entry, hentry, hentryName⟩
        have hid := (hp.ids entry.id).mp (mem_map_of_mem hentry)
        obtain ⟨found, hfound, heq⟩ := mem_map.mp hid
        refine ⟨entry.id, ?_, hentryName⟩
        rw [← heq]
        simpa using (mem_filter.mp hfound).2
      · rintro ⟨id, hid, hidName⟩
        have heq : id = record.id := recommendationFilename_injective (hidName.trans hname)
        have hmem := (hp.ids id).mpr (mem_map.mpr
          ⟨record, mem_filter.mpr ⟨hrecord, by rw [← heq]; simpa using hid⟩, heq.symm⟩)
        obtain ⟨entry, hentry, hentryId⟩ := mem_map.mp hmem
        exact ⟨entry, hentry, by rw [hentryId]; exact hidName⟩
    by_cases ht : (removalJob uuid start.files removal).isTarget name = true
    · obtain ⟨id, hid, hidName⟩ := htarget.mp ht
      rw [if_pos ht, Option.filter_some, if_neg]
      simp only [decide_eq_true_eq, not_forall]
      exact ⟨id, hid, by simpa using hidName⟩
    · rw [if_neg ht, Option.filter_some, if_pos]
      rw [decide_eq_true_eq]
      intro id hid hidName
      exact ht (htarget.mpr ⟨id, hid, hidName⟩)

/-- A recovery that has done its work: it succeeded, the record files are `files`,
the journal is gone, and recovering again takes no step. -/
structure Recovered (env : Env) (files : Files) (outcome : Outcome Disk StoreError Unit) : Prop where
  result : outcome.result = .ok ()
  last : outcome.last = ⟨files, none⟩
  again : recover env outcome.last = ⟨[], .ok (), outcome.last⟩

theorem recovered_of_phase (hjob : job.Sound env) {committed : Bool} (h : Phase job committed d) :
    Recovered env (job.settled committed) (recover env d) := by
  have hmeets : Meets (recover env) d (fun _ e => e = ⟨job.settled committed, none⟩)
      (fun _ _ => False) (Phase job committed) := recoverExpected_meets hjob h (.inl rfl)
  have hresult : (recover env d).result = .ok () := by
    cases hr : (recover env d).result with
    | ok _ => rfl
    | error e => exact absurd (hmeets.error e hr) id
  have hlast : (recover env d).last = ⟨job.settled committed, none⟩ := hmeets.ok _ hresult
  refine ⟨hresult, hlast, ?_⟩
  rw [hlast]
  obtain ⟨inventory, hread, hreads⟩ :=
    @readExpected_ok env job _ hjob none (.inl rfl) (settled_part committed)
  have hgraph := asInvalid_ok.mpr (validateGraphRecords_ok_iff.mpr (settled_graph hjob hreads))
  have hvalid : validateJournal env none ⟨job.settled committed, none⟩ = .ok .absent := by
    unfold validateJournal
    rw [bind_eq_ok]
    exact ⟨inventory, hread, by rw [seq_eq_ok]; exact ⟨hgraph, rfl⟩⟩
  unfold recover recoverExpected
  change Prog.bind _ _ _ = _
  simp only [Prog.bind, Prog.check, hvalid]
  rfl

/-- Crash recovery of the deletion journal: whatever records are selected, after a
crash at any step of `publish` and any number of crashed recoveries, recovery
succeeds and removes the journal; the records are the original ones if the rename to
the committed manifest was not reached, and otherwise the original ones without
exactly those the removal takes. -/
theorem deletion_journal_recovers (env : Env) (start : Disk) (inventory : Inventory)
    (hinspect : inspect env start = .ok inventory)
    (select : Recommendation → Bool) (removal : PreparedRemoval)
    (hprepare : prepareSelected env inventory select = .ok removal)
    (hmanifest : ManifestsReadBack env removal) (uuid : String) (huuid : env.canonicalUuid uuid = true)
    (before : List Disk) (crashed : Disk)
    (hcrash : CrashesAt (publish env uuid removal) start before crashed)
    (d : Disk) (hrecovering : Crashed (recover env) crashed d) :
    ((∀ e ∈ before ++ [crashed], ¬ ManifestCommitted env e) →
      Recovered env start.files (recover env d)) ∧
    ((∃ e ∈ before ++ [crashed], ManifestCommitted env e) →
      Recovered env (withoutIds start.files (removedIds inventory.records select))
        (recover env d)) := by
  have hjob := removalJob_sound hinspect hprepare hmanifest huuid
  have hjournal : start.journal = none ∨ start.journal = some ∅ := by
    have hempty := (inspect_ok hinspect).2.1
    cases h : start.journal with
    | none => exact .inl rfl
    | some journal =>
      rw [h] at hempty
      exact .inr (congrArg some (Std.ExtTreeMap.isEmpty_iff.mp hempty))
  -- recovery keeps the phase it was entered in
  have hsettle : ∀ c, Phase (removalJob uuid start.files removal) c crashed →
      Recovered env ((removalJob uuid start.files removal).settled c) (recover env d) := by
    intro c hphase
    refine recovered_of_phase hjob (hrecovering.invariant _ ?_ hphase)
    intro e he
    exact (recoverExpected_meets hjob he (.inl rfl)).states
  rcases publish_phase hjob hjournal hcrash with ⟨hnot, hphase⟩ | ⟨hreached, hphase⟩
  · refine ⟨fun _ => hsettle false hphase, ?_⟩
    rintro ⟨e, he, hcommitted⟩
    exact absurd hcommitted (hnot e he)
  · refine ⟨?_, fun _ => ?_⟩
    · intro hnot
      obtain ⟨e, he, hcommitted⟩ := hreached
      exact absurd hcommitted (hnot e he)
    · rw [← kept_eq_withoutIds hinspect hprepare hjob]
      exact hsettle true hphase

/-! ### A removal of one record -/

theorem verifyPublication_ok {inventory : Inventory} (hinspect : inspect env start = .ok inventory)
    (hprepare : prepareSelected env inventory select = .ok removal) :
    verifyPublication env removal start = .ok () := by
  obtain ⟨hread, hempty, hgraph⟩ := inspect_ok hinspect
  have hreads := readRecords_reads hread
  unfold verifyPublication
  rw [bind_eq_ok]
  refine ⟨inventory, asInvalid_ok.mpr hread, ?_⟩
  rw [seq_eq_ok, asInvalid_ok, validateGraphRecords_ok_iff, seq_eq_ok, refuseInvalid_ok, seq_eq_ok,
    boundNames_ok, refuseInvalid_ok, hempty, (prepareSelected_ok hprepare).same,
    sameLeaves_of_reads hreads hreads, Std.ExtTreeMap.isEmpty_iff.mp hempty,
    Std.ExtTreeMap.size_empty]
  exact ⟨hgraph, rfl, Nat.zero_le _, rfl⟩

theorem publish_reaches {inventory : Inventory} (hinspect : inspect env start = .ok inventory)
    (hprepare : prepareSelected env inventory select = .ok removal)
    (hmanifest : ManifestsReadBack env removal) (huuid : env.canonicalUuid uuid = true)
    (hsome : removal.entries ≠ []) (hjournal : start.journal = none) :
    ∃ before crashed, CrashesAt (publish env uuid removal) start before crashed ∧
      ManifestCommitted env crashed := by
  have hjob := removalJob_sound hinspect hprepare hmanifest huuid
  have hstage : Meets (stageRemoval ("tx-" ++ uuid) removal) start _ (fun _ _ => False)
      (Phase (removalJob uuid start.files removal) false) :=
    stageRemoval_meets hjob hsome (.inl hjournal)
  obtain ⟨u, hstaged⟩ : ∃ u, (stageRemoval ("tx-" ++ uuid) removal start).result = .ok u := by
    cases hr : (stageRemoval ("tx-" ++ uuid) removal start).result with
    | ok u => exact ⟨u, rfl⟩
    | error e => exact (hstage.error e hr).elim
  have hlast := hstage.ok u hstaged
  obtain ⟨rest, hfirst⟩ := publishRemoval_states env (removalJob uuid start.files removal)
  change (publishRemoval env ("tx-" ++ uuid) removal _).states = _ at hfirst
  refine ⟨start :: (stageRemoval ("tx-" ++ uuid) removal start).states, _, ⟨rest, ?_⟩,
    "tx-" ++ uuid, _, _, _, (removalJob uuid start.files removal).disk_transaction start.files
      (backedUp (removalJob uuid start.files removal)
        (some ((removalJob uuid start.files removal).manifestBytes true)) none),
    rfl, hjob.readsBack true, rfl⟩
  have hcheck : Prog.check (verifyPublication env removal) start = ⟨[], .ok (), start⟩ := by
    rw [← verifyPublication_ok hinspect hprepare]
    rfl
  have hentries : removal.entries.isEmpty = false := by
    rw [isEmpty_eq_false_iff]
    exact hsome
  unfold publish
  rw [bind_states, hcheck]
  simp only [hentries, Bool.false_eq_true, if_false, nil_append]
  rw [bind_states, hstaged]
  simp only [hlast, hfirst, cons_append]
  rfl

end publishing

namespace Sample
open Taskmaster.Sample (record digest json manifestText)

def entry : RollupTransactionEntry where
  id := "a"
  target := "a.json"
  staged := none
  backup := some "backups/a.json"
  oldSha256 := some digest
  oldExists := true
  newSha256 := none
  newExists := false

def manifestJson (committed : Bool) : Bytes := manifestText ⟨2, committed, [entry]⟩

attribute [local irreducible] json manifestJson

def uuid : String := "67e55044-10b1-426f-9247-bb680e5fe0c8"

/-- The digests and formats on the contents this removal meets. -/
def env : Env where
  digests := Taskmaster.Sample.env.digests
  encodeManifest := fun m => manifestJson m.committed
  parseManifest := fun bytes =>
    if bytes = manifestJson false then some ⟨2, false, [entry]⟩ else some ⟨2, true, [entry]⟩
  parseRecord := fun _ => some record
  canonicalUuid := fun id => id == uuid

def start : Disk := ⟨(∅ : Files).insert "a.json" json, none⟩

def inventory : Inventory := ⟨[record], .ofList [("a", json)]⟩

def removal : PreparedRemoval := ⟨inventory, [entry], manifestJson false, manifestJson true⟩

theorem inspect_start : inspect env start = .ok inventory := by
  have hentry : readEntry env 0 "a.json" json = .ok record := by
    rw [readEntry_ok]
    refine ⟨⟨by decide +kernel, by decide +kernel, rfl, by decide +kernel, by decide +kernel⟩, ?_⟩
    decide +kernel
  have hread : readRecords env start.files = .ok inventory := by
    unfold readRecords start
    rw [seq_eq_ok, refuseInvalid_ok, bind_eq_ok]
    refine ⟨?_, [(record, json)], ?_, rfl⟩
    · rw [← Std.ExtTreeMap.length_toList, toList_singleton]
      rfl
    · rw [toList_singleton, readEntries, hentry]
      rfl
  have hgraph : validateGraphRecords env.digests [record] = .ok () := by decide
  unfold inspect
  rw [bind_eq_ok]
  refine ⟨inventory, hread, ?_⟩
  rw [seq_eq_ok, boundNames_ok]
  refine ⟨by rw [start, Option.getD_none, Std.ExtTreeMap.size_empty]; exact Nat.zero_le _, ?_⟩
  rw [start, Option.getD_none, if_pos Std.ExtTreeMap.isEmpty_empty, seq_eq_ok]
  exact ⟨hgraph, rfl⟩

theorem removedIds_all : removedIds [record] (fun _ => true) = {"a"} := by
  unfold removedIds
  rw [deletionGraphIds, if_pos (by decide)]
  rfl

theorem prepare_all : prepareSelected env inventory (fun _ => true) = .ok removal := by
  have hleaf : inventory.leaves[record.id]? = some json :=
    (get_ofList (by simp)).mpr mem_cons_self
  have hentry : ∀ bytes, deletionEntry env record.id bytes = entry := by
    intro bytes
    have hname : recommendationFilename "a" = "a.json" := by decide
    have hbackup : transactionBackupPath "a" = "backups/a.json" := by decide
    simp only [deletionEntry, entry, record, hname, hbackup]
    rfl
  have hentries : removalEntries env inventory.leaves {"a"} [record] = .ok [entry] := by
    rw [removalEntries, if_neg (by decide), hleaf]
    simp only [removalEntries, hentry]
    rfl
  have hvalid : validateManifestEntries [] [entry] = .ok () := by decide +kernel
  have hbounded : ∀ committed, boundedManifest env ⟨2, committed, [entry]⟩ =
      .ok (manifestJson committed) := by
    intro committed
    rw [boundedManifest_ok]
    refine ⟨rfl, ?_⟩
    cases committed
    · decide +kernel
    · decide +kernel
  unfold prepareSelected
  rw [bind_eq_ok]
  refine ⟨[entry], ?_, ?_⟩
  · rw [← removedIds_all] at hentries
    exact hentries
  rw [seq_eq_ok, bind_eq_ok]
  refine ⟨hvalid, manifestJson false, hbounded false, ?_⟩
  rw [bind_eq_ok]
  exact ⟨manifestJson true, hbounded true, rfl⟩

theorem manifests_read_back : ManifestsReadBack env removal := by
  have hdiff : manifestJson true ≠ manifestJson false := by decide +kernel
  intro committed
  cases committed with
  | false => simp only [env, removal, if_true]
  | true => simp only [env, removal, if_neg hdiff]

end Sample

/-- A crash at the rename of a removal of the only record: recovery removes it. -/
theorem removed_record_recovered :
    ∃ before crashed, CrashesAt (publish Sample.env Sample.uuid Sample.removal) Sample.start
        before crashed ∧ ManifestCommitted Sample.env crashed ∧
      Recovered Sample.env (withoutIds Sample.start.files {"a"}) (recover Sample.env crashed) := by
  have huuid : Sample.env.canonicalUuid Sample.uuid = true := by decide
  obtain ⟨before, crashed, hcrash, hcommitted⟩ := publish_reaches Sample.inspect_start
    Sample.prepare_all Sample.manifests_read_back huuid (by simp [Sample.removal]) rfl
  have hrecovered := (deletion_journal_recovers Sample.env Sample.start Sample.inventory
    Sample.inspect_start (fun _ => true) Sample.removal Sample.prepare_all
    Sample.manifests_read_back Sample.uuid huuid before crashed hcrash crashed (.none _)).2
      ⟨crashed, by simp, hcommitted⟩
  rw [← Sample.removedIds_all]
  exact ⟨before, crashed, hcrash, hcommitted, hrecovered⟩

end Orkworksd.Taskmaster.Deletion
