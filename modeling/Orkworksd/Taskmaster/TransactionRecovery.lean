import Orkworksd.Taskmaster.Transaction

/- Crash atomicity of the store's transactions.

   A `Job` is one transaction: its directory, the files it started from and its
   replacements. `Held c F X` is the disk while the manifest is in place, in phase
   `c`: the backups are there, every target has its old or its new contents, and,
   in the committed phase, what is not yet published is still staged whenever the
   new graph is valid. `Idle F` is the disk when no manifest is in place. Together
   they make `Phase c`, the crash invariant: every step of the commit before the
   rename that commits keeps `Phase false`, every later step `Phase true`, and
   recovery keeps either of them (`recoverTransactions_meets`) and, when it
   returns, leaves exactly the files of `settled c`.

   Main result: `commit_crash_atomic`. -/
namespace Orkworksd.Taskmaster
open Lib Prog List TextMap

variable {err : StoreError → Disk → Prop} {crash : Disk → Prop} {F : Files}

variable {path : String} {bytes : Bytes}

/-! ## Paths -/

variable (id : String)

theorem staged_head : (transactionStagedPath id).toList.head? = some 's' := by
  simp only [transactionStagedPath, String.toList_append]
  rfl

theorem backup_head : (transactionBackupPath id).toList.head? = some 'b' := by
  simp only [transactionBackupPath, String.toList_append]
  rfl

theorem restore_head : (transactionRestorePath id).toList.head? = some 'r' := by
  simp only [transactionRestorePath, String.toList_append]
  rfl

theorem manifest_head : manifestPath.toList.head? = some 'm' := by decide

theorem temporary_head : manifestTemporary.toList.head? = some 'm' := by decide

variable {b : String} {c : Char}

theorem path_ne_of_head {a : String} {d : Char} (ha : a.toList.head? = some c)
    (hb : b.toList.head? = some d) (hcd : c ≠ d) : a ≠ b := by
  rintro rfl
  rw [ha, Option.some.injEq] at hb
  exact hcd hb

variable (a : String)

theorem staged_ne_backup (b : String) : transactionStagedPath a ≠ transactionBackupPath b :=
  path_ne_of_head (staged_head a) (backup_head b) (by decide)

theorem restore_ne_backup (b : String) : transactionRestorePath a ≠ transactionBackupPath b :=
  path_ne_of_head (restore_head a) (backup_head b) (by decide)

theorem restore_ne_staged (b : String) : transactionRestorePath a ≠ transactionStagedPath b :=
  path_ne_of_head (restore_head a) (staged_head b) (by decide)

theorem restore_ne_manifest : transactionRestorePath a ≠ manifestPath :=
  path_ne_of_head (restore_head a) manifest_head (by decide)

theorem staged_ne_manifest : transactionStagedPath a ≠ manifestPath :=
  path_ne_of_head (staged_head a) manifest_head (by decide)

theorem backup_ne_manifest : transactionBackupPath a ≠ manifestPath :=
  path_ne_of_head (backup_head a) manifest_head (by decide)

theorem temporary_ne_staged : manifestTemporary ≠ transactionStagedPath a :=
  path_ne_of_head temporary_head (staged_head a) (by decide)

theorem temporary_ne_backup : manifestTemporary ≠ transactionBackupPath a :=
  path_ne_of_head temporary_head (backup_head a) (by decide)

theorem temporary_ne_manifest : manifestTemporary ≠ manifestPath := by decide

theorem stagedPath_injective {a : String} (h : transactionStagedPath a = transactionStagedPath b) :
    a = b := by
  unfold transactionStagedPath at h
  rw [String.append_assoc, String.append_assoc, String.append_right_inj,
    String.append_left_inj] at h
  exact filenameComponent_injective h

theorem backupPath_injective {a : String} (h : transactionBackupPath a = transactionBackupPath b) :
    a = b := by
  unfold transactionBackupPath at h
  rw [String.append_assoc, String.append_assoc, String.append_right_inj,
    String.append_left_inj] at h
  exact filenameComponent_injective h

/-! ## The transaction -/

/-- A file given its contents, or removed. -/
def setFile (files : Files) (name : String) : Option Bytes → Files
  | some bytes => files.insert name bytes
  | none => files.erase name

theorem setFile_self (files : Files) (name : String) (bytes : Option Bytes) :
    (setFile files name bytes)[name]? = bytes := by
  cases bytes
  · exact get_erase_self
  · exact get_insert_self

variable {name : String} {files : Files}

theorem setFile_ne {other : String} (bytes : Option Bytes) (h : name ≠ other) :
    (setFile files name bytes)[other]? = files[other]? := by
  cases bytes
  · exact get_erase_ne h
  · exact get_insert_ne h

theorem setFile_same {bytes : Option Bytes} (h : files[name]? = bytes) :
    setFile files name bytes = files := by
  apply TextMap.ext
  intro a
  by_cases ha : name = a
  · rw [← ha, setFile_self, h]
  · exact setFile_ne bytes ha

/-- What publishing leaves in the target: a file whose old contents have the digest
of the new ones is taken to be published already. -/
def Replacement.landed (env : Env) (replacement : Replacement) : Option Bytes :=
  if replacement.old.map env.digests.sha256 = replacement.new.map env.digests.sha256 then
    replacement.old
  else replacement.new

theorem Replacement.landed_digest (env : Env) (replacement : Replacement) :
    (replacement.landed env).map env.digests.sha256 = replacement.new.map env.digests.sha256 := by
  unfold landed
  split
  · rename_i h; exact h
  · rfl

variable {replacement : Replacement}

theorem Replacement.landed_of_differ {env : Env}
    (h : replacement.old.map env.digests.sha256 ≠ replacement.new.map env.digests.sha256) :
    replacement.landed env = replacement.new :=
  if_neg h

theorem Replacement.landed_removed {env : Env} (h : replacement.new = none) :
    replacement.landed env = none := by
  have hdigest := replacement.landed_digest env
  rw [h] at hdigest
  exact Option.map_eq_none_iff.mp hdigest

theorem Replacement.landed_cases (env : Env) (replacement : Replacement) :
    replacement.landed env = replacement.old ∨ replacement.landed env = replacement.new := by
  unfold landed
  split
  · exact .inl rfl
  · exact .inr rfl

structure Job where
  root : String
  before : Files
  items : List (String × Replacement)

namespace Job

/-- The files once every replacement is published. -/
def after (env : Env) (job : Job) : Files :=
  job.items.foldl (fun files item =>
    setFile files (recommendationFilename item.1) (item.2.landed env)) job.before

/-- The disk while the transaction directory holds `X`. -/
def disk (job : Job) (F X : Files) : Disk where
  files := F
  transactions := some ((∅ : TextMap Files).insert job.root X)

/-- What `commit_replacements` has checked, and that the manifest reads back. -/
structure Sound (env : Env) (job : Job) : Prop where
  ids : (job.items.map Prod.fst).Nodup
  old : ∀ item ∈ job.items, job.before[recommendationFilename item.1]? = item.2.old
  manifest : ∀ committed, env.serde.decodeManifest (env.serde.encodeManifest
    (transactionManifest env job.items committed)) =
      .ok (transactionManifest env job.items committed)
  valid : validateGraph env job.before = .ok ()

end Job

variable {items : List (String × Replacement)}

variable {f : Replacement → Option Bytes}

theorem foldl_setFile_ne
    (h : ∀ item ∈ items, recommendationFilename item.1 ≠ name) : (items.foldl (fun files item =>
      setFile files (recommendationFilename item.1) (f item.2)) F)[name]? = F[name]? := by
  induction items generalizing F with
  | nil => rfl
  | cons item items ih =>
    rw [foldl_cons, ih (fun x hx => h x (mem_cons_of_mem _ hx))]
    exact setFile_ne _ (h item mem_cons_self)

variable {item : String × Replacement}

theorem foldl_setFile_mem (hids : (items.map Prod.fst).Nodup) (h : item ∈ items) :
    (items.foldl (fun files item => setFile files (recommendationFilename item.1)
      (f item.2)) F)[recommendationFilename item.1]? = f item.2 := by
  induction items generalizing F with
  | nil => cases h
  | cons x items ih =>
    rw [map_cons, nodup_cons] at hids
    rw [foldl_cons]
    rcases mem_cons.mp h with rfl | h
    · rw [foldl_setFile_ne, setFile_self]
      intro y hy heq
      exact hids.1 (recommendationFilename_injective heq ▸ mem_map_of_mem hy)
    · exact ih hids.2 h

variable {job : Job}

theorem Job.after_item {env : Env} (hids : (job.items.map Prod.fst).Nodup) (h : item ∈ job.items) :
    (job.after env)[recommendationFilename item.1]? = item.2.landed env :=
  foldl_setFile_mem (f := Replacement.landed env) hids h

theorem Job.after_other {env : Env} (h : ∀ item ∈ job.items, recommendationFilename item.1 ≠ name) :
    (job.after env)[name]? = job.before[name]? :=
  foldl_setFile_ne (f := Replacement.landed env) h

/-- Files that agree with the start elsewhere and hold every replacement are the
files of `after`. -/
theorem Job.eq_after {env : Env} (hids : (job.items.map Prod.fst).Nodup)
    (hnew : ∀ item ∈ job.items, F[recommendationFilename item.1]? = item.2.landed env)
    (hother : ∀ name : String, (∀ item ∈ job.items, recommendationFilename item.1 ≠ name) →
      F[name]? = job.before[name]?) : F = job.after env := by
  apply TextMap.ext
  intro name
  by_cases h : ∀ item ∈ job.items, recommendationFilename item.1 ≠ name
  · rw [hother name h, Job.after_other h]
  · push Not at h
    obtain ⟨item, hitem, rfl⟩ := h
    rw [hnew item hitem, Job.after_item hids hitem]

theorem Job.eq_before {env : Env} (hjob : job.Sound env)
    (hold : ∀ item ∈ job.items, F[recommendationFilename item.1]? = item.2.old)
    (hother : ∀ name : String, (∀ item ∈ job.items, recommendationFilename item.1 ≠ name) →
      F[name]? = job.before[name]?) : F = job.before := by
  apply TextMap.ext
  intro name
  by_cases h : ∀ item ∈ job.items, recommendationFilename item.1 ≠ name
  · exact hother name h
  · push Not at h
    obtain ⟨item, hitem, rfl⟩ := h
    rw [hold item hitem, hjob.old item hitem]

/-! ## Phases -/

section phases
variable (env : Env) (job : Job)

/-- The item's target is published, or its new contents are still staged. -/
def Ready (F X : Files) (item : String × Replacement) : Prop :=
  ∀ bytes, item.2.new = some bytes → F[recommendationFilename item.1]? = item.2.landed env ∨
    X[transactionStagedPath item.1]? = some bytes

/-- The manifest is in place, in phase `committed`. -/
structure Held (committed : Bool) (F X : Files) : Prop where
  manifest : X[manifestPath]? =
    some (env.serde.encodeManifest (transactionManifest env job.items committed))
  backups : ∀ item ∈ job.items, ∀ bytes, item.2.old = some bytes →
    X[transactionBackupPath item.1]? = some bytes
  others : ∀ name : String, (∀ item ∈ job.items, recommendationFilename item.1 ≠ name) →
    F[name]? = job.before[name]?
  mixed : ∀ item ∈ job.items, F[recommendationFilename item.1]? = item.2.old ∨
    (committed = true ∧ F[recommendationFilename item.1]? = item.2.landed env)
  staged : committed = true → ∀ item ∈ job.items, X[transactionStagedPath item.1]? = none ∨
    X[transactionStagedPath item.1]? = item.2.new
  forward : committed = true → validateGraph env (job.after env) = .ok () →
    ∀ item ∈ job.items, Ready env F X item

/-- No manifest is in place. -/
def Idle (F : Files) (d : Disk) : Prop :=
  d.files = F ∧ (d.transactions = none ∨ d.transactions = some ∅ ∨
    ∃ X : Files, d = job.disk F X ∧ X[manifestPath]? = none)

/-- The new graph is valid. -/
def Job.NewValid : Prop := validateGraph env (job.after env) = .ok ()

instance : Decidable (job.NewValid env) :=
  inferInstanceAs (Decidable (validateGraph env (job.after env) = .ok ()))

/-- What recovery leaves: the new files once they were committed and are valid. -/
def Job.settled (committed : Bool) : Files :=
  if committed = true ∧ job.NewValid env then job.after env else job.before

def Phase (committed : Bool) (d : Disk) : Prop :=
  (∃ F X, d = job.disk F X ∧ Held env job committed F X) ∨ Idle job (job.settled env committed) d

end phases

/-! ## File operations of a transaction -/

namespace Job

variable (job : Job) (F X : Files)

theorem disk_transactionFile (path : String) :
    (job.disk F X).transactionFile job.root path = X[path]? := by
  simp [Disk.transactionFile, disk]

theorem disk_modifyTransaction (f : Files → Files) :
    (job.disk F X).modifyTransaction job.root f = job.disk F (f X) := by
  unfold Disk.modifyTransaction disk
  simp only [Option.map_some, Disk.mk.injEq, Option.some.injEq, true_and]
  apply TextMap.ext
  intro a
  rw [get_modify, get_insert, get_insert]
  by_cases h : job.root = a
  · simp [h]
  · simp [h]

end Job

section operations
variable {job : Job} {F X : Files} {post : Unit → Disk → Prop} {err : StoreError → Disk → Prop}
  {crash : Disk → Prop}

variable {path : String} {bytes : Bytes}

theorem meets_writeSync (hcrash : ∀ written, crash (job.disk F (X.insert path written)))
    (h : post () (job.disk F (X.insert path bytes))) :
    Meets (writeSync job.root path bytes) (job.disk F X) post err crash := by
  refine Meets.during' ?_ ?_ ?_
  · intro d hd
    obtain ⟨written, -, rfl⟩ := mem_map.mp hd
    rw [job.disk_modifyTransaction]
    exact hcrash written
  · rw [job.disk_modifyTransaction]
    exact hcrash bytes
  · rw [job.disk_modifyTransaction]
    exact h

theorem meets_readTransactionFile {post : Bytes → Disk → Prop}
    (hsome : ∀ bytes, X[path]? = some bytes → post bytes (job.disk F X))
    (hnone : X[path]? = none → err missingFile (job.disk F X)) :
    Meets (readTransactionFile job.root path) (job.disk F X) post err crash := by
  refine Meets.check' ?_ ?_
  · intro bytes hb
    rw [job.disk_transactionFile] at hb
    cases hX : X[path]? with
    | none => simp [hX] at hb
    | some b =>
      rw [hX] at hb
      cases hb
      exact hsome _ hX
  · intro e he
    rw [job.disk_transactionFile] at he
    cases hX : X[path]? with
    | none =>
      rw [hX] at he
      cases he
      exact hnone hX
    | some b => simp [hX] at he

variable {target : String}

theorem meets_replaceTarget (hsome : ∀ bytes, X[path]? = some bytes →
      crash (job.disk (F.insert target bytes) (X.erase path)) ∧
        post () (job.disk (F.insert target bytes) (X.erase path)))
    (hnone : X[path]? = none → err missingFile (job.disk F X)) :
    Meets (replaceTarget job.root path target) (job.disk F X) post err crash := by
  refine Meets.bind' (meets_readTransactionFile ?_ hnone)
  intro bytes hX
  have hdisk : ({ (job.disk F X).modifyTransaction job.root (fun files => files.erase path) with
      files := (job.disk F X).files.insert target bytes } : Disk) =
      job.disk (F.insert target bytes) (X.erase path) := by
    rw [job.disk_modifyTransaction]
    rfl
  refine Meets.step' ?_ ?_
  · rw [hdisk]; exact (hsome bytes hX).1
  · rw [hdisk]; exact (hsome bytes hX).2

theorem meets_renameTransactionFile (hX : X[path]? = some bytes)
    (hcrash : crash (job.disk F ((X.erase path).insert target bytes)))
    (h : post () (job.disk F ((X.erase path).insert target bytes))) :
    Meets (renameTransactionFile job.root path target) (job.disk F X) post err crash := by
  refine Meets.bind' (meets_readTransactionFile ?_ ?_)
  · intro bytes' hX'
    rw [hX, Option.some.injEq] at hX'
    subst hX'
    refine Meets.step' ?_ ?_
    · rw [job.disk_modifyTransaction]; exact hcrash
    · rw [job.disk_modifyTransaction]; exact h
  · intro hnone
    rw [hX] at hnone
    cases hnone

theorem meets_removeTarget (hcrash : crash (job.disk (F.erase target) X))
    (h : post () (job.disk (F.erase target) X)) :
    Meets (removeTarget target) (job.disk F X) post err crash :=
  Meets.step' hcrash h

theorem meets_removeTransactionFile (hX : X[path]? = some bytes)
    (hcrash : crash (job.disk F (X.erase path))) (h : post () (job.disk F (X.erase path))) :
    Meets (removeTransactionFile job.root path) (job.disk F X) post err crash := by
  refine Meets.bind' (meets_readTransactionFile ?_ ?_)
  · intro _ _
    refine Meets.step' ?_ ?_
    · rw [job.disk_modifyTransaction]; exact hcrash
    · rw [job.disk_modifyTransaction]; exact h
  · intro hnone
    rw [hX] at hnone
    cases hnone

theorem foldl_erase_none {gone : List String} (h : files[path]? = none) :
    (gone.foldl (fun files path => files.erase path) files)[path]? = none := by
  induction gone generalizing files with
  | nil => exact h
  | cons a gone ih =>
    rw [foldl_cons]
    refine ih ?_
    rw [get_erase]
    split
    · rfl
    · exact h

theorem meets_removeTransactionDir (hX : X[manifestPath]? = none)
    (hcrash : ∀ X' : Files, X'[manifestPath]? = none → crash (job.disk F X'))
    (hlast : crash ⟨F, some ∅⟩) (h : post () ⟨F, some ∅⟩) :
    Meets (removeTransactionDir job.root) (job.disk F X) post err crash := by
  have hempty : ((∅ : TextMap Files).insert job.root X).erase job.root = ∅ := by
    apply TextMap.ext
    intro a
    rw [get_erase, get_empty]
    split
    · rfl
    · rename_i hne
      rw [get_insert_ne hne, get_empty]
  refine Meets.during' ?_ ?_ ?_
  · intro d hd
    have hroot : (job.disk F X).transactions.bind (fun roots => roots[job.root]?) = some X := by
      simp [Job.disk]
    simp only [hroot] at hd
    obtain ⟨gone, -, rfl⟩ := mem_map.mp hd
    rw [job.disk_modifyTransaction]
    exact hcrash _ (foldl_erase_none hX)
  · change crash ⟨F, some (((∅ : TextMap Files).insert job.root X).erase job.root)⟩
    rw [hempty]
    exact hlast
  · change post () ⟨F, some (((∅ : TextMap Files).insert job.root X).erase job.root)⟩
    rw [hempty]
    exact h

end operations

/-! ## One entry -/

section entries
variable {env : Env} {job : Job} {F X : Files} {item : String × Replacement}

variable {c : Bool}

theorem Held.insert (h : Held env job c F X) (hmanifest : path ≠ manifestPath)
    (hbackup : ∀ id, path ≠ transactionBackupPath id)
    (hstaged : ∀ id, path ≠ transactionStagedPath id) : Held env job c F (X.insert path bytes) where
  manifest := by rw [get_insert_ne hmanifest]; exact h.manifest
  backups := by
    intro i hi b hb
    rw [get_insert_ne (hbackup _)]
    exact h.backups i hi b hb
  others := h.others
  mixed := h.mixed
  staged := by
    intro hc i hi
    rw [get_insert_ne (hstaged _)]
    exact h.staged hc i hi
  forward := by
    intro hc hv i hi b hb
    rw [get_insert_ne (hstaged _)]
    exact h.forward hc hv i hi b hb

theorem Held.erase (h : Held env job c F X) (hmanifest : path ≠ manifestPath)
    (hbackup : ∀ id, path ≠ transactionBackupPath id)
    (hstaged : ∀ id, path ≠ transactionStagedPath id) : Held env job c F (X.erase path) where
  manifest := by rw [get_erase_ne hmanifest]; exact h.manifest
  backups := by
    intro i hi b hb
    rw [get_erase_ne (hbackup _)]
    exact h.backups i hi b hb
  others := h.others
  mixed := h.mixed
  staged := by
    intro hc i hi
    rw [get_erase_ne (hstaged _)]
    exact h.staged hc i hi
  forward := by
    intro hc hv i hi b hb
    rw [get_erase_ne (hstaged _)]
    exact h.forward hc hv i hi b hb

section
variable (hjob : job.Sound env)
include hjob

theorem Job.Sound.item_eq {a b : String × Replacement}
    (ha : a ∈ job.items) (hb : b ∈ job.items) (h : a.1 = b.1) : a = b :=
  inj_on_of_nodup_map hjob.ids ha hb h

theorem ready_publish (hitem : item ∈ job.items) {X' : Files}
    (hX' : X' = X ∨ X' = X.erase (transactionStagedPath item.1)) {i : String × Replacement}
    (hi : i ∈ job.items) (h : Ready env F X i) :
    Ready env (setFile F (recommendationFilename item.1) (item.2.landed env)) X' i := by
  intro b hb
  by_cases heq : i = item
  · rw [heq, setFile_self]
    exact .inl rfl
  · have hpath : transactionStagedPath item.1 ≠ transactionStagedPath i.1 := by
      intro hpath
      exact heq (hjob.item_eq hi hitem (stagedPath_injective hpath).symm)
    have hother : X'[transactionStagedPath i.1]? = X[transactionStagedPath i.1]? := by
      rcases hX' with rfl | rfl
      · rfl
      · exact get_erase_ne hpath
    rw [setFile_ne, hother]
    · exact h b hb
    · intro hname
      exact heq (hjob.item_eq hi hitem (recommendationFilename_injective hname).symm)

/-- Publishing an item keeps the committed phase, whether its staged file was
used up or not. -/
theorem Held.publish (h : Held env job true F X) (hitem : item ∈ job.items)
    {X' : Files} (hX' : X' = X ∨ X' = X.erase (transactionStagedPath item.1)) :
    Held env job true (setFile F (recommendationFilename item.1) (item.2.landed env)) X' := by
  have hother : ∀ path : String, path ≠ transactionStagedPath item.1 → X'[path]? = X[path]? := by
    intro path hne
    rcases hX' with rfl | rfl
    · rfl
    · exact get_erase_ne hne.symm
  refine ⟨?_, ?_, ?_, ?_, ?_, ?_⟩
  · rw [hother _ (staged_ne_manifest _).symm]
    exact h.manifest
  · intro i hi b hb
    rw [hother _ (staged_ne_backup _ _).symm]
    exact h.backups i hi b hb
  · intro name hname
    rw [setFile_ne _ (hname item hitem)]
    exact h.others name hname
  · intro i hi
    by_cases heq : i = item
    · rw [heq, setFile_self]
      exact .inr ⟨rfl, rfl⟩
    · rw [setFile_ne]
      · exact h.mixed i hi
      · intro hname
        exact heq (hjob.item_eq hi hitem (recommendationFilename_injective hname).symm)
  · intro hc i hi
    by_cases heq : i = item
    · rw [heq]
      rcases hX' with rfl | rfl
      · exact h.staged hc item hitem
      · exact .inl get_erase_self
    · rw [hother]
      · exact h.staged hc i hi
      · intro hpath
        exact heq (hjob.item_eq hi hitem (stagedPath_injective hpath))
  · intro hc hv i hi
    exact ready_publish hjob hitem hX' hi (h.forward hc hv i hi)

theorem Held.restore (h : Held env job c F X)
    (hroll : c = true → ¬ job.NewValid env) (hitem : item ∈ job.items) :
    Held env job c (setFile F (recommendationFilename item.1) item.2.old) X where
  manifest := h.manifest
  backups := h.backups
  others := by
    intro name hname
    rw [setFile_ne _ (hname item hitem)]
    exact h.others name hname
  mixed := by
    intro i hi
    by_cases heq : i = item
    · rw [heq, setFile_self]
      exact .inl rfl
    · rw [setFile_ne]
      · exact h.mixed i hi
      · intro hname
        exact heq (hjob.item_eq hi hitem (recommendationFilename_injective hname).symm)
  staged := h.staged
  forward := by
    intro hc hv
    exact absurd hv (hroll hc)

theorem meets_publishEntry (h : Held env job true F X) (hitem : item ∈ job.items)
    (hcrash : ∀ F' X', Held env job true F' X' → crash (job.disk F' X')) :
    Meets (publishEntry env job.root (manifestEntry env item.1 item.2)) (job.disk F X)
      (fun _ d => ∃ X', (X' = X ∨ X' = X.erase (transactionStagedPath item.1)) ∧
        d = job.disk (setFile F (recommendationFilename item.1) (item.2.landed env)) X' ∧
        Held env job true (setFile F (recommendationFilename item.1) (item.2.landed env)) X')
      (fun _ d => d = job.disk F X ∧ ¬ Ready env F X item) crash := by
  have hkept := h.publish hjob hitem (.inl rfl)
  have hused := h.publish hjob hitem (.inr rfl)
  cases hnew : item.2.new with
  | none =>
    rw [Replacement.landed_removed hnew] at hkept ⊢
    simp only [publishEntry, manifestEntry, hnew, Option.isSome_none, Bool.not_false, if_true]
    exact meets_removeTarget (hcrash _ _ hkept) ⟨X, .inl rfl, rfl, hkept⟩
  | some bytes =>
    simp only [publishEntry, manifestEntry, hnew, Option.isSome_some, Bool.not_true,
      Bool.false_eq_true, if_false, Option.map_some]
    refine Meets.bind' (Meets.look' (Meets.ite' ?_ ?_))
    · intro hsame
      -- a target with the new digest has what publishing leaves there
      have hnow : F[recommendationFilename item.1]? = item.2.landed env := by
        obtain ⟨now, hnow, hdig⟩ := (Option.any_eq_true _ _).mp hsame
        change F[recommendationFilename item.1]? = some now at hnow
        rcases h.mixed item hitem with hold | ⟨-, hnew'⟩
        · rw [hold] at hnow ⊢
          refine (if_pos ?_).symm
          rw [hnow, hnew]
          simpa using hdig
        · exact hnew'
      have hfix := setFile_same hnow
      refine Meets.pure' ⟨X, .inl rfl, ?_, hkept⟩
      rw [hfix]
    · intro hdiff
      have hdigest : (F[recommendationFilename item.1]?).map env.digests.sha256 ≠
          item.2.new.map env.digests.sha256 := by
        intro heq
        apply hdiff
        change Option.any _ (F[recommendationFilename item.1]?) = true
        rw [hnew] at heq
        obtain ⟨now, hnow, hdig⟩ := Option.map_eq_some_iff.mp heq
        rw [hnow]
        simp [hdig]
      have hstuck : X[transactionStagedPath item.1]? ≠ some bytes → ¬ Ready env F X item := by
        intro hgone hready
        rcases hready bytes hnew with hdone | hst
        · exact hdigest (hdone ▸ item.2.landed_digest env)
        · exact hgone hst
      have hlanded : item.2.landed env = some bytes := by
        rcases h.mixed item hitem with hold | ⟨-, hdone⟩
        · rw [hold] at hdigest
          rw [Replacement.landed_of_differ hdigest, hnew]
        · exact absurd (hdone ▸ item.2.landed_digest env) hdigest
      rw [hlanded] at hkept hused ⊢
      refine Meets.bind' (meets_readTransactionFile ?_ ?_)
      · intro found hfound
        have hbytes : found = bytes := by
          rcases h.staged rfl item hitem with hno | hst
          · rw [hno] at hfound; cases hfound
          · rw [hst, hnew, Option.some.injEq] at hfound; exact hfound.symm
        subst hbytes
        rw [if_neg (by simp)]
        refine meets_replaceTarget ?_ ?_
        · intro b hb
          rw [hfound, Option.some.injEq] at hb
          subst hb
          exact ⟨hcrash _ _ hused, _, .inr rfl, rfl, hused⟩
        · intro hno
          rw [hfound] at hno
          cases hno
      · intro hno
        exact ⟨rfl, hstuck (by rw [hno]; simp)⟩

theorem meets_rollbackEntry (h : Held env job c F X) (hroll : c = true → ¬ job.NewValid env)
    (hitem : item ∈ job.items) (hcrash : ∀ F' X', Held env job c F' X' → crash (job.disk F' X')) :
    Meets (rollbackEntry env job.root (manifestEntry env item.1 item.2)) (job.disk F X)
      (fun _ d => ∃ X', d = job.disk (setFile F (recommendationFilename item.1) item.2.old) X' ∧
        Held env job c (setFile F (recommendationFilename item.1) item.2.old) X') err crash := by
  have hrestored := h.restore hjob hroll hitem
  cases hold : item.2.old with
  | none =>
    rw [hold] at hrestored
    simp only [rollbackEntry, manifestEntry, hold, Option.isSome_none, Bool.false_eq_true, if_false]
    exact meets_removeTarget (hcrash _ _ hrestored) ⟨X, rfl, hrestored⟩
  | some bytes =>
    rw [hold] at hrestored
    have hbackup := h.backups item hitem bytes hold
    simp only [rollbackEntry, manifestEntry, hold, Option.isSome_some, if_true, Option.map_some]
    refine Meets.bind' (meets_readTransactionFile ?_ ?_)
    · intro found hfound
      rw [hbackup, Option.some.injEq] at hfound
      subst hfound
      rw [if_neg (by simp)]
      have hwritten : ∀ F' written, Held env job c F' X →
          Held env job c F' (X.insert (transactionRestorePath item.1) written) :=
        fun F' written h' => h'.insert (restore_ne_manifest _) (restore_ne_backup _)
          (restore_ne_staged _)
      refine Meets.bind' (meets_writeSync (fun written => hcrash _ _ (hwritten _ written h)) ?_)
      refine meets_replaceTarget ?_ ?_
      · intro b hb
        rw [get_insert_self, Option.some.injEq] at hb
        subst hb
        have hdone := (hwritten _ bytes hrestored).erase (restore_ne_manifest item.1)
          (restore_ne_backup _) (restore_ne_staged _)
        exact ⟨hcrash _ _ hdone, _, rfl, hdone⟩
      · intro hno
        rw [get_insert_self] at hno
        cases hno
    · intro hno
      rw [hbackup] at hno
      cases hno

end

end entries

/-! ## The manifest's entries are accepted exactly when the ids are valid -/

theorem notMem_filenameComponent {k : UInt8} (hc : c = Char.ofNat k.toNat)
    (hplain : isPlain k = false) (hpercent : c ≠ '%') (hhex : ∀ n < 16, upperHex n ≠ c)
    (id : String) : c ∉ (filenameComponent id).toList := by
  intro h
  rw [filenameComponent, String.toList_ofList] at h
  obtain ⟨b, -, hb⟩ := mem_flatMap.mp h
  have hlt := b.toNat_lt
  unfold encodeByte at hb
  split at hb
  · rename_i hkept
    rw [mem_singleton, hc] at hb
    have hsame := UInt8.toNat_inj.mp (charOfNat_inj _ k.toNat_lt _ hlt hb)
    rw [hsame, hkept] at hplain
    cases hplain
  · simp only [mem_cons, not_mem_nil, or_false] at hb
    rcases hb with hb | hb | hb
    · exact hpercent hb
    · exact hhex _ (by omega) hb.symm
    · exact hhex _ (by omega) hb.symm

theorem dot_notMem_filenameComponent : '.' ∉ (filenameComponent id).toList :=
  notMem_filenameComponent (k := 0x2e) (by decide) (by decide) (by decide) (by decide) id

theorem hasParentDir_dots {path : List Char} (h : hasParentDir path = true) :
    2 ≤ path.count '.' := by
  have hsub : ['.', '.'].Sublist path := by
    unfold hasParentDir at h
    simp only [Bool.or_eq_true, beq_iff_eq, List.isPrefixOf_iff_prefix, isSuffixOf_iff_suffix,
      decide_eq_true_eq] at h
    rcases h with ((rfl | h) | h) | h
    · exact List.Sublist.refl _
    · exact (by decide : ['.', '.'].Sublist ['.', '.', '/']).trans h.sublist
    · exact (by decide : ['.', '.'].Sublist ['/', '.', '.']).trans h.sublist
    · exact (by decide : ['.', '.'].Sublist ['/', '.', '.', '/']).trans h.sublist
  simpa using hsub.count_le '.'

/-- A relative path made of a directory or prefix and an encoded id stays inside
the transaction directory. -/
theorem escapesDirectory_component {start : String}
    (hhead : (start ++ filenameComponent id ++ ".json").toList.head? = some c) (hc : c ≠ '/')
    (hdots : start.toList.count '.' = 0) :
    escapesDirectory (start ++ filenameComponent id ++ ".json") = false := by
  unfold escapesDirectory
  rw [hhead]
  have hcount : (start ++ filenameComponent id ++ ".json").toList.count '.' = 1 := by
    rw [String.toList_append, String.toList_append, count_append, count_append, hdots,
      count_eq_zero.mpr (dot_notMem_filenameComponent id)]
    decide
  rw [Bool.or_eq_false_iff]
  refine ⟨by simpa using hc, ?_⟩
  rw [Bool.eq_false_iff]
  intro h
  have := hasParentDir_dots h
  omega

theorem escapesDirectory_staged : escapesDirectory (transactionStagedPath id) = false :=
  escapesDirectory_component id (staged_head id) (by decide) (by decide)

theorem escapesDirectory_backup : escapesDirectory (transactionBackupPath id) = false :=
  escapesDirectory_component id (backup_head id) (by decide) (by decide)

theorem validateManifestEntries_ok_iff {env : Env} {seen : List String}
    (hids : (items.map Prod.fst).Nodup) (hseen : ∀ item ∈ items, item.1 ∉ seen) :
    validateManifestEntries seen (items.map (fun item => manifestEntry env item.1 item.2)) = .ok () ↔
      ∀ item ∈ items, validId item.1 = true := by
  induction items generalizing seen with
  | nil => simp [validateManifestEntries]
  | cons item items ih =>
    obtain ⟨id, old, new⟩ := item
    rw [map_cons, nodup_cons] at hids
    have hnot : id ∉ seen := hseen _ mem_cons_self
    have hpaths : ((manifestEntry env id ⟨old, new⟩).staged.toList ++
        (manifestEntry env id ⟨old, new⟩).backup.toList).any escapesDirectory = false := by
      cases new <;> cases old <;>
        simp [manifestEntry, escapesDirectory_staged, escapesDirectory_backup]
    have hrest : ∀ x ∈ items, x.1 ∉ id :: seen := by
      intro x hx hmem
      rcases mem_cons.mp hmem with heq | hmem
      · exact hids.1 (mem_map.mpr ⟨x, hx, heq⟩)
      · exact hseen x (mem_cons_of_mem _ hx) hmem
    rw [map_cons]
    unfold validateManifestEntries
    simp only [hpaths, Bool.false_eq_true, if_false]
    by_cases hv : validId id = true
    · rw [if_neg, if_neg]
      · change validateManifestEntries (id :: seen) _ = .ok () ↔ _
        rw [ih hids.2 hrest]
        simp [hv]
      · cases new <;> cases old <;> simp [manifestEntry]
      · cases new <;> cases old <;> simp [manifestEntry, hv, hnot]
    · simp only [Bool.not_eq_true] at hv
      simp [manifestEntry, hv]

/-! ## Recovery -/

section recovery
variable {env : Env} {job : Job} {F X : Files}

/-- Publishing every entry ends with the new files, or stops in the committed
phase when some item was not ready. -/
theorem meets_publishAll (hjob : job.Sound env) (h : Held env job true F X)
    (hcrash : ∀ F' X', Held env job true F' X' → crash (job.disk F' X')) :
    Meets (forEach (publishEntry env job.root) (transactionManifest env job.items true).entries)
      (job.disk F X)
      (fun _ d => ∃ X', d = job.disk (job.after env) X' ∧ Held env job true (job.after env) X')
      (fun _ d => (∃ F' X', d = job.disk F' X' ∧ Held env job true F' X') ∧
        ¬ ∀ item ∈ job.items, Ready env F X item)
      crash := by
  let inv : List (String × Replacement) → Disk → Prop := fun rest d =>
    ∃ F' X' done, d = job.disk F' X' ∧ Held env job true F' X' ∧ job.items = done ++ rest ∧
      (∀ item ∈ done, F'[recommendationFilename item.1]? = item.2.landed env) ∧
      ((∀ item ∈ job.items, Ready env F X item) → ∀ item ∈ job.items, Ready env F' X' item)
  have hloop : Meets (forEach (fun item => publishEntry env job.root
      (manifestEntry env item.1 item.2)) job.items) (job.disk F X) (fun _ d => inv [] d)
      (fun _ d => (∃ F' X', d = job.disk F' X' ∧ Held env job true F' X') ∧
        ¬ ∀ item ∈ job.items, Ready env F X item)
      crash := by
    refine Meets.forEach' ?_ job.items ⟨F, X, [], rfl, h, rfl, by simp, fun hready => hready⟩
    rintro item rest d ⟨F', X', done, rfl, hheld, hsplit, hdone, hready⟩
    have hitem : item ∈ job.items := by rw [hsplit]; simp
    refine (meets_publishEntry hjob hheld hitem hcrash).mono ?_ ?_ (fun _ hd => hd)
    · rintro _ d ⟨X'', hX'', rfl, hheld'⟩
      refine ⟨_, X'', done ++ [item], rfl, hheld', by simp [hsplit], ?_, ?_⟩
      · intro i hi
        rcases mem_append.mp hi with hi | hi
        · have hne : recommendationFilename item.1 ≠ recommendationFilename i.1 := by
            intro heq
            have hnd := hjob.ids
            rw [hsplit, map_append, nodup_append] at hnd
            exact hnd.2.2 _ (mem_map_of_mem hi) _ (mem_map_of_mem mem_cons_self)
              (recommendationFilename_injective heq).symm
          rw [setFile_ne _ hne]
          exact hdone i hi
        · rw [mem_singleton.mp hi, setFile_self]
      · intro hall i hi
        exact ready_publish hjob hitem hX'' hi (hready hall i hi)
    · rintro _ d ⟨rfl, hnot⟩
      exact ⟨⟨F', X', rfl, hheld⟩, fun hall => hnot (hready hall item hitem)⟩
  rw [transactionManifest, forEach_map]
  refine hloop.mono ?_ (fun _ _ hd => hd) (fun _ hd => hd)
  rintro _ d ⟨F', X', done, rfl, hheld, hsplit, hdone, -⟩
  rw [append_nil] at hsplit
  have hF : F' = job.after env := Job.eq_after hjob.ids (hsplit ▸ hdone) hheld.others
  exact ⟨X', by rw [hF], hF ▸ hheld⟩

variable {c : Bool}

section
variable {err : StoreError → Disk → Prop}

theorem meets_rollbackTransaction (hjob : job.Sound env) (h : Held env job c F X)
    (hroll : c = true → ¬ job.NewValid env)
    (hcrash : ∀ F' X', Held env job c F' X' → crash (job.disk F' X')) :
    Meets (rollbackTransaction env job.root (transactionManifest env job.items c).entries)
      (job.disk F X)
      (fun _ d => ∃ X', d = job.disk job.before X' ∧ Held env job c job.before X') err crash := by
  let inv : List (String × Replacement) → Disk → Prop := fun rest d =>
    ∃ F X done, d = job.disk F X ∧ Held env job c F X ∧ job.items = done ++ rest ∧
      ∀ item ∈ done, F[recommendationFilename item.1]? = item.2.old
  have hloop : Meets (forEach (fun item => rollbackEntry env job.root
      (manifestEntry env item.1 item.2)) job.items) (job.disk F X) (fun _ d => inv [] d)
      err crash := by
    refine Meets.forEach' ?_ job.items ⟨F, X, [], rfl, h, rfl, by simp⟩
    rintro item rest d ⟨F, X, done, rfl, hheld, hsplit, hdone⟩
    have hitem : item ∈ job.items := by rw [hsplit]; simp
    refine (meets_rollbackEntry hjob hheld hroll hitem hcrash).mono ?_ (fun _ _ hd => hd)
      (fun _ hd => hd)
    rintro _ d ⟨X', rfl, hheld'⟩
    refine ⟨_, X', done ++ [item], rfl, hheld', by simp [hsplit], ?_⟩
    intro i hi
    rcases mem_append.mp hi with hi | hi
    · by_cases heq : recommendationFilename item.1 = recommendationFilename i.1
      · have hmem : i ∈ job.items := by rw [hsplit]; exact mem_append_left _ hi
        rw [hjob.item_eq hmem hitem (recommendationFilename_injective heq).symm, setFile_self]
      · rw [setFile_ne _ heq]
        exact hdone i hi
    · rw [mem_singleton.mp hi, setFile_self]
  rw [rollbackTransaction, transactionManifest, forEach_map]
  refine hloop.mono ?_ (fun _ _ hd => hd) (fun _ hd => hd)
  rintro _ d ⟨F', X', done, rfl, hheld, hsplit, hdone⟩
  rw [append_nil] at hsplit
  have hF : F' = job.before := Job.eq_before hjob (hsplit ▸ hdone) hheld.others
  exact ⟨X', by rw [hF], hF ▸ hheld⟩

theorem meets_finish (h : Held env job c (job.settled env c) X) :
    Meets (finishTransactionCleanup job.root) (job.disk (job.settled env c) X)
      (fun _ d => d = ⟨job.settled env c, some ∅⟩) err (Phase env job c) := by
  have hidle : ∀ X' : Files, X'[manifestPath]? = none →
      Phase env job c (job.disk (job.settled env c) X') :=
    fun X' hX' => .inr ⟨rfl, .inr (.inr ⟨X', rfl, hX'⟩)⟩
  refine Meets.bind' (meets_removeTransactionFile h.manifest ?_ ?_)
  · exact hidle _ get_erase_self
  · exact meets_removeTransactionDir get_erase_self hidle (.inr ⟨rfl, .inr (.inl rfl)⟩) rfl

theorem meets_rollBackAndFinish (hjob : job.Sound env) (h : Held env job c F X)
    (hroll : c = true → ¬ job.NewValid env) :
    Meets (rollBackAndFinish env job.root (transactionManifest env job.items c).entries)
      (job.disk F X) (fun _ d => d = ⟨job.settled env c, some ∅⟩) err (Phase env job c) := by
  have hsettled : job.settled env c = job.before := by
    rw [Job.settled, if_neg]
    rintro ⟨hc, hv⟩
    exact hroll hc hv
  refine Meets.seq (meets_rollbackTransaction hjob h hroll
    (fun F' X' hheld => .inl ⟨F', X', rfl, hheld⟩)) ?_
  rintro _ d ⟨X', rfl, hheld⟩
  refine Meets.bind' (Meets.check' ?_ ?_)
  · intro _ _
    rw [← hsettled] at hheld ⊢
    exact meets_finish hheld
  · intro e he
    -- the old graph was valid when the transaction began
    change (validateGraph env job.before).mapError _ = _ at he
    rw [hjob.valid] at he
    cases he

theorem meets_recoverCommitted (hjob : job.Sound env) (h : Held env job true F X) :
    Meets (recoverCommitted env job.root (transactionManifest env job.items true).entries)
      (job.disk F X) (fun _ d => d = ⟨job.settled env true, some ∅⟩) err (Phase env job true) := by
  have hback : ∀ F' X', Held env job true F' X' → ¬ job.NewValid env →
      Meets (rollBackAndFinish env job.root (transactionManifest env job.items true).entries)
        (job.disk F' X') (fun _ d => d = ⟨job.settled env true, some ∅⟩) err (Phase env job true) :=
    fun F' X' hheld hinvalid => meets_rollBackAndFinish hjob hheld (fun _ => hinvalid)
  refine Meets.bind' (Meets.attempt' ((meets_publishAll hjob h
    (fun F' X' hheld => .inl ⟨F', X', rfl, hheld⟩)).mono ?_ ?_ (fun _ hd => hd)))
  · rintro u d ⟨X', rfl, hheld⟩
    refine Meets.bind' (Meets.look' ?_)
    dsimp only [Job.disk]
    cases hv : validateGraph env (job.after env) with
    | ok _ =>
      have hsettled : job.settled env true = job.after env := if_pos ⟨rfl, hv⟩
      rw [← hsettled] at hheld ⊢
      exact meets_finish hheld
    | error e =>
      refine hback _ _ hheld ?_
      rw [Job.NewValid, hv]
      simp
  · rintro e d ⟨⟨F', X', rfl, hheld⟩, hnot⟩
    refine Meets.bind' (Meets.look' ?_)
    exact hback F' X' hheld (fun hvalid => hnot (h.forward rfl hvalid))

end

/-- Recovery of a directory whose manifest is in place: with valid ids it settles
the transaction, otherwise it refuses and changes nothing. -/
theorem meets_recoverTransaction (hjob : job.Sound env) (h : Held env job c F X) :
    Meets (recoverTransaction env job.root
        (env.serde.encodeManifest (transactionManifest env job.items c))) (job.disk F X)
      (fun _ d => d = ⟨job.settled env c, some ∅⟩ ∧ ∀ item ∈ job.items, validId item.1 = true)
      (fun _ d => d = job.disk F X ∧ ¬ ∀ item ∈ job.items, validId item.1 = true)
      (Phase env job c) := by
  unfold recoverTransaction
  rw [hjob.manifest]
  refine Meets.bind' ?_
  change Meets (Prog.pure (transactionManifest env job.items c).entries) _ _ _ _
  refine Meets.pure' (Meets.bind' (Meets.check' ?_ ?_))
  · intro _ hentries
    rw [transactionManifest, validateManifestEntries_ok_iff hjob.ids (by simp)] at hentries
    cases c with
    | true =>
      exact (meets_recoverCommitted hjob h).mono (fun _ _ hd => ⟨hd, hentries⟩)
        (fun _ _ hd => hd) (fun _ hd => hd)
    | false =>
      exact (meets_rollBackAndFinish hjob h (by simp)).mono (fun _ _ hd => ⟨hd, hentries⟩)
        (fun _ _ hd => hd) (fun _ hd => hd)
  · intro e he
    refine ⟨rfl, ?_⟩
    intro hvalid
    rw [transactionManifest, (validateManifestEntries_ok_iff hjob.ids (by simp)).mpr hvalid] at he
    cases he

theorem meets_removeEmptyTransactions :
    Meets removeEmptyTransactions ⟨job.settled env c, some ∅⟩
      (fun _ d => d = ⟨job.settled env c, none⟩) err (Phase env job c) := by
  refine Meets.bind' (Meets.look' (Meets.ite' ?_ ?_))
  · intro _
    exact Meets.step' (.inr ⟨rfl, .inl rfl⟩) rfl
  · intro hne
    exact absurd (by simp) hne

theorem meets_recoverOne {P : Prop}
    (hdir : Meets (recoverDirectory env job.root) (job.disk F X)
      (fun _ d => d = ⟨job.settled env c, some ∅⟩ ∧ P) err (Phase env job c)) :
    Meets (recoverTransactions env) (job.disk F X)
      (fun _ d => d = ⟨job.settled env c, none⟩ ∧ P) err (Phase env job c) := by
  refine Meets.bind' (Meets.look' ?_)
  change Meets (forEach (recoverDirectory env)
    ((∅ : TextMap Files).insert job.root X).keys >>= fun _ => removeEmptyTransactions) _ _ _ _
  rw [keys_singleton]
  refine Meets.bind' (Meets.bind' (hdir.mono ?_ (fun _ _ hd => hd) (fun _ hd => hd)))
  rintro _ t ⟨rfl, hP⟩
  exact Meets.pure' (meets_removeEmptyTransactions.mono (fun _ _ hd => ⟨hd, hP⟩)
    (fun _ _ hd => hd) (fun _ hd => hd))

theorem recoverTransactions_held (hjob : job.Sound env) (h : Held env job c F X) :
    Meets (recoverTransactions env) (job.disk F X)
      (fun _ d => d = ⟨job.settled env c, none⟩ ∧ ∀ item ∈ job.items, validId item.1 = true)
      (fun _ d => Phase env job c d ∧ ¬ ∀ item ∈ job.items, validId item.1 = true)
      (Phase env job c) := by
  refine meets_recoverOne (Meets.bind' (Meets.look' ?_))
  rw [job.disk_transactionFile, h.manifest]
  refine (meets_recoverTransaction hjob h).mono (fun _ _ hd => hd) ?_ (fun _ hd => hd)
  rintro _ d ⟨rfl, hinvalid⟩
  exact ⟨.inl ⟨F, X, rfl, h⟩, hinvalid⟩

theorem recoverTransactions_meets {d : Disk} (hjob : job.Sound env) (h : Phase env job c d) :
    Meets (recoverTransactions env) d (fun _ d' => d' = ⟨job.settled env c, none⟩)
      (fun _ d' => Phase env job c d' ∧ ¬ ∀ item ∈ job.items, validId item.1 = true)
      (Phase env job c) := by
  rcases h with ⟨F, X, rfl, hheld⟩ | ⟨hfiles, hnone | hempty | ⟨X, rfl, hX⟩⟩
  · exact (recoverTransactions_held hjob hheld).mono (fun _ _ hd => hd.1) (fun _ _ hd => hd)
      (fun _ hd => hd)
  · obtain ⟨files, transactions⟩ := d
    subst hfiles hnone
    exact Meets.bind' (Meets.look' (Meets.pure' rfl))
  · obtain ⟨files, transactions⟩ := d
    subst hfiles hempty
    refine Meets.bind' (Meets.look' ?_)
    change Meets (forEach (recoverDirectory env) (∅ : TextMap Files).keys >>= fun _ =>
      removeEmptyTransactions) _ _ _ _
    rw [keys_empty]
    exact Meets.bind' (Meets.pure' meets_removeEmptyTransactions)
  · refine Meets.mono (meets_recoverOne (P := True) (Meets.bind' (Meets.look' ?_)))
      (fun _ _ hd => hd.1) (fun _ _ hd => hd) (fun _ hd => hd)
    rw [job.disk_transactionFile, hX]
    exact meets_removeTransactionDir hX
      (fun X' hX' => .inr ⟨rfl, .inr (.inr ⟨X', rfl, hX'⟩)⟩) (.inr ⟨rfl, .inr (.inl rfl)⟩)
      ⟨rfl, trivial⟩

end recovery

/-! ## The commit -/

section commit
variable {env : Env} {job : Job} {F X : Files}

variable {done : List (String × Replacement)}

theorem Job.settled_false (env : Env) (job : Job) : job.settled env false = job.before :=
  if_neg (by simp)

theorem idle_disk (hX : X[manifestPath]? = none) :
    Phase env job false (job.disk job.before X) := by
  refine .inr ⟨(job.settled_false env).symm, .inr (.inr ⟨X, ?_, hX⟩)⟩
  rw [job.settled_false]

variable {path : String}

theorem meets_writeOptional {bytes : Option Bytes} {post : Unit → Disk → Prop}
    (hX : X[path]? = none) (hcrash : ∀ written, crash (job.disk F (X.insert path written)))
    (h : post () (job.disk F (setFile X path bytes))) :
    Meets (writeOptional job.root path bytes) (job.disk F X) post err crash := by
  cases bytes with
  | none =>
    rw [setFile_same hX] at h
    exact Meets.pure' h
  | some bytes => exact meets_writeSync hcrash h

/-- Every replacement of `done` has its backup and its staged file. -/
def StagedAll (done : List (String × Replacement)) (X : Files) : Prop :=
  ∀ item ∈ done, X[transactionBackupPath item.1]? = item.2.old ∧
    X[transactionStagedPath item.1]? = item.2.new

theorem meets_stageReplacements (hjob : job.Sound env) :
    Meets (forEach (stageReplacement job.root) job.items) (job.disk job.before ∅)
      (fun _ d => ∃ X, d = job.disk job.before X ∧ X[manifestPath]? = none ∧
        StagedAll job.items X) err (Phase env job false) := by
  let inv : List (String × Replacement) → Disk → Prop := fun rest d =>
    ∃ X done, d = job.disk job.before X ∧ X[manifestPath]? = none ∧ job.items = done ++ rest ∧
      StagedAll done X ∧ ∀ item ∈ rest, X[transactionBackupPath item.1]? = none ∧
        X[transactionStagedPath item.1]? = none
  have hloop : Meets (forEach (stageReplacement job.root) job.items) (job.disk job.before ∅)
      (fun _ d => inv [] d) err (Phase env job false) := by
    refine Meets.forEach' ?_ job.items ⟨∅, [], rfl, get_empty, rfl, by simp [StagedAll],
      fun _ _ => ⟨get_empty, get_empty⟩⟩
    rintro item rest d ⟨X, done, rfl, hmanifest, hsplit, hdone, hrest⟩
    have hfresh := hrest item mem_cons_self
    have hids := hjob.ids
    rw [hsplit, map_append, map_cons, nodup_append] at hids
    have hlater : ∀ i ∈ rest, item.1 ≠ i.1 := by
      intro i hi heq
      exact (nodup_cons.mp hids.2.1).1 (mem_map.mpr ⟨i, hi, heq.symm⟩)
    have hearlier : ∀ i ∈ done, item.1 ≠ i.1 := by
      intro i hi heq
      exact hids.2.2 _ (mem_map_of_mem hi) _ mem_cons_self heq.symm
    have hbackupManifest : ∀ written : Option Bytes,
        (setFile X (transactionBackupPath item.1) written)[manifestPath]? = none := by
      intro written
      rw [setFile_ne _ (backup_ne_manifest _)]
      exact hmanifest
    refine Meets.bind' (meets_writeOptional hfresh.1
      (fun written => idle_disk (hbackupManifest (some written))) ?_)
    refine meets_writeOptional ?_ ?_ ?_
    · rw [setFile_ne _ (staged_ne_backup _ _).symm]
      exact hfresh.2
    · intro written
      refine idle_disk ?_
      rw [get_insert_ne (staged_ne_manifest _)]
      exact hbackupManifest _
    · -- what a different item has is not touched
      have hother : ∀ i : String × Replacement, item.1 ≠ i.1 →
          (setFile (setFile X (transactionBackupPath item.1) item.2.old)
            (transactionStagedPath item.1) item.2.new)[transactionBackupPath i.1]? =
              X[transactionBackupPath i.1]? ∧
          (setFile (setFile X (transactionBackupPath item.1) item.2.old)
            (transactionStagedPath item.1) item.2.new)[transactionStagedPath i.1]? =
              X[transactionStagedPath i.1]? := by
        intro i hne
        refine ⟨?_, ?_⟩
        · rw [setFile_ne _ (staged_ne_backup _ _),
            setFile_ne _ (fun h => hne (backupPath_injective h))]
        · rw [setFile_ne _ (fun h => hne (stagedPath_injective h)),
            setFile_ne _ (staged_ne_backup _ _).symm]
      refine ⟨_, done ++ [item], rfl, ?_, by simp [hsplit], ?_, ?_⟩
      · rw [setFile_ne _ (staged_ne_manifest _)]
        exact hbackupManifest _
      · intro i hi
        rcases mem_append.mp hi with hi | hi
        · obtain ⟨hb, hs⟩ := hother i (hearlier i hi)
          rw [hb, hs]
          exact hdone i hi
        · rw [mem_singleton.mp hi, setFile_ne _ (staged_ne_backup _ _), setFile_self,
            setFile_self]
          exact ⟨rfl, rfl⟩
      · intro i hi
        obtain ⟨hb, hs⟩ := hother i (hlater i hi)
        rw [hb, hs]
        exact hrest i (mem_cons_of_mem _ hi)
  refine hloop.mono ?_ (fun _ _ hd => hd) (fun _ hd => hd)
  rintro _ d ⟨X, done, rfl, hmanifest, hsplit, hdone, -⟩
  rw [append_nil] at hsplit
  exact ⟨X, rfl, hmanifest, hsplit ▸ hdone⟩

/-- With every backup and staged file written, publishing the manifest of phase
`c` enters that phase. -/
theorem held_of_stagedAll {c : Bool} (hjob : job.Sound env) (hstaged : StagedAll job.items X)
    (hmanifest : X[manifestPath]? =
      some (env.serde.encodeManifest (transactionManifest env job.items c))) :
    Held env job c job.before X where
  manifest := hmanifest
  backups := by
    intro item hitem bytes hold
    rw [(hstaged item hitem).1, hold]
  others := fun _ _ => rfl
  mixed := fun item hitem => .inl (hjob.old item hitem)
  staged := fun _ item hitem => .inr (hstaged item hitem).2
  forward := by
    intro _ _ item hitem bytes hnew
    rw [(hstaged item hitem).2, hnew]
    exact .inr rfl

theorem StagedAll.insert (h : StagedAll done X) (hbackup : ∀ id, path ≠ transactionBackupPath id)
    (hstaged : ∀ id, path ≠ transactionStagedPath id) : StagedAll done (X.insert path bytes) := by
  intro item hitem
  rw [get_insert_ne (hbackup _), get_insert_ne (hstaged _)]
  exact h item hitem

theorem StagedAll.erase (h : StagedAll done X) (hbackup : ∀ id, path ≠ transactionBackupPath id)
    (hstaged : ∀ id, path ≠ transactionStagedPath id) : StagedAll done (X.erase path) := by
  intro item hitem
  rw [get_erase_ne (hbackup _), get_erase_ne (hstaged _)]
  exact h item hitem

/-- The transaction directory once a manifest was renamed into place. -/
def published (env : Env) (job : Job) (c : Bool) (X : Files) : Files :=
  (X.erase manifestTemporary).insert manifestPath
    (env.serde.encodeManifest (transactionManifest env job.items c))

theorem held_published {c : Bool} (hjob : job.Sound env) (hstaged : StagedAll job.items X) :
    Held env job c job.before (published env job c X) := by
  refine held_of_stagedAll hjob ?_ get_insert_self
  exact (hstaged.erase temporary_ne_backup temporary_ne_staged).insert
    (fun id => (backup_ne_manifest id).symm) (fun id => (staged_ne_manifest id).symm)

theorem stageTransaction_meets (hjob : job.Sound env) :
    Meets (stageTransaction env job.root job.items) ⟨job.before, none⟩
      (fun _ d => ∃ X, d = job.disk job.before X ∧ StagedAll job.items X ∧
        X[manifestTemporary]? =
          some (env.serde.encodeManifest (transactionManifest env job.items true)))
      err (Phase env job false) := by
  have hempty : (if (∅ : TextMap Files).contains job.root then (∅ : TextMap Files)
      else (∅ : TextMap Files).insert job.root ∅) = (∅ : TextMap Files).insert job.root ∅ := by
    rw [if_neg (by simp)]
  have hcreate : Meets (createTransactionDir job.root) ⟨job.before, none⟩
      (fun _ d => d = job.disk job.before ∅) err (Phase env job false) := by
    refine Meets.bind' (Meets.step' ?_ (Meets.step' ?_ ?_))
    · exact .inr ⟨(job.settled_false env).symm, .inr (.inl rfl)⟩
    · change Phase env job false ⟨job.before, some (if (∅ : TextMap Files).contains job.root then ∅
        else (∅ : TextMap Files).insert job.root ∅)⟩
      rw [hempty]
      exact idle_disk get_empty
    · change Disk.mk job.before (some (if (∅ : TextMap Files).contains job.root then ∅
        else (∅ : TextMap Files).insert job.root ∅)) = _
      rw [hempty]
      rfl
  refine Meets.seq hcreate ?_
  rintro _ d rfl
  refine Meets.seq (meets_stageReplacements hjob) ?_
  rintro _ d ⟨X, rfl, hmanifest, hstaged⟩
  refine Meets.bind' (meets_writeSync ?_ ?_)
  · intro written
    refine idle_disk ?_
    rw [get_insert_ne temporary_ne_manifest]
    exact hmanifest
  · have hstaged' : StagedAll job.items (X.insert manifestTemporary
        (env.serde.encodeManifest (transactionManifest env job.items false))) :=
      hstaged.insert temporary_ne_backup temporary_ne_staged
    have hheld := held_published (c := false) hjob hstaged'
    refine Meets.bind' (meets_renameTransactionFile get_insert_self ?_ ?_)
    · exact .inl ⟨_, _, rfl, hheld⟩
    · refine meets_writeSync ?_ ?_
      · intro written
        exact .inl ⟨_, _, rfl, hheld.insert temporary_ne_manifest temporary_ne_backup
          temporary_ne_staged⟩
      · refine ⟨_, rfl, ?_, get_insert_self⟩
        refine StagedAll.insert ?_ temporary_ne_backup temporary_ne_staged
        exact (hstaged'.erase temporary_ne_backup temporary_ne_staged).insert
          (fun id => (backup_ne_manifest id).symm) (fun id => (staged_ne_manifest id).symm)

/-- Publishing a staged transaction ends with the new files, or with the old ones
and the manifest still in place when the new graph is not valid. -/
theorem publishTransaction_meets (hjob : job.Sound env) (hstaged : StagedAll job.items X)
    (hready : X[manifestTemporary]? =
      some (env.serde.encodeManifest (transactionManifest env job.items true))) :
    Meets (publishTransaction env job.root job.items) (job.disk job.before X)
      (fun _ d => d = ⟨job.after env, some ∅⟩ ∧ job.NewValid env)
      (fun _ d => (∃ X', d = job.disk job.before X' ∧ Held env job true job.before X') ∧
        ¬ job.NewValid env) (Phase env job true) := by
  have hheld := held_published (c := true) hjob hstaged
  have hphase : ∀ F' X', Held env job true F' X' → Phase env job true (job.disk F' X') :=
    fun F' X' h => .inl ⟨F', X', rfl, h⟩
  refine Meets.bind' (meets_renameTransactionFile hready (hphase _ _ hheld) ?_)
  refine Meets.bind' ((meets_publishAll hjob hheld hphase).mono ?_ ?_ (fun _ hd => hd))
  · rintro _ d ⟨X', rfl, hafter⟩
    refine Meets.bind' (Meets.look' ?_)
    dsimp only [Job.disk]
    cases hv : validateGraph env (job.after env) with
    | ok _ =>
      have hsettled : job.settled env true = job.after env := if_pos ⟨rfl, hv⟩
      rw [← hsettled] at hafter ⊢
      exact (meets_finish hafter).mono (fun _ _ hd => ⟨hd, hv⟩) (fun _ _ hd => hd) (fun _ hd => hd)
    | error e =>
      have hinvalid : ¬ job.NewValid env := by rw [Job.NewValid, hv]; simp
      have hrollback : Meets (rollbackTransaction env job.root
          (transactionManifest env job.items true).entries) (job.disk (job.after env) X')
          (fun _ d => ∃ X'', d = job.disk job.before X'' ∧ Held env job true job.before X'')
          (fun _ _ => False) (Phase env job true) :=
        meets_rollbackTransaction hjob hafter (fun _ => hinvalid) hphase
      refine Meets.bind' (Meets.attempt' (hrollback.mono ?_ ?_ (fun _ hd => hd)))
      · rintro _ d ⟨X'', rfl, hback⟩
        refine Meets.bind' (Meets.check' ?_ ?_)
        · intro _ _
          exact Meets.fail' ⟨⟨X'', rfl, hback⟩, hinvalid⟩
        · intro e' _
          exact ⟨⟨X'', rfl, hback⟩, hinvalid⟩
      · intro _ _ hfalse
        exact hfalse.elim
  · rintro _ d ⟨-, hnot⟩
    -- every new file was staged
    refine absurd (fun item hitem bytes hnew => .inr ?_) hnot
    unfold published
    rw [get_insert_ne (staged_ne_manifest _).symm,
      get_erase_ne (temporary_ne_staged _), (hstaged item hitem).2, hnew]

end commit

/-! ## Crash atomicity -/

theorem verifyReplacements_ok : verifyReplacements files items = .ok () ↔
    ∀ item ∈ items, files[recommendationFilename item.1]? = item.2.old := by
  induction items with
  | nil => simp [verifyReplacements]
  | cons item items ih =>
    rw [forall_mem_cons, ← ih]
    by_cases hsame : files[recommendationFilename item.1]? = item.2.old
    · simp [verifyReplacements, hsame]
    · simp [verifyReplacements, hsame]

/-- The job of a call of `commit_replacements` that passed its checks. -/
def commitJob (uuid : String) (files : Files) (replacements : TextMap Replacement) : Job where
  root := "tx-" ++ uuid
  before := files
  items := replacements.toList

/-- No digest of an old file is the digest of different new contents. -/
def DigestsDiffer (env : Env) (replacements : TextMap Replacement) : Prop :=
  ∀ (id : String) (replacement : Replacement) (old new : Bytes),
    replacements[id]? = some replacement → replacement.old = some old →
      replacement.new = some new → env.digests.sha256 old = env.digests.sha256 new → old = new

/-- Both manifests of the transaction read back as they were written. -/
def ManifestReadsBack (env : Env) (replacements : TextMap Replacement) : Prop :=
  ∀ committed, env.serde.decodeManifest (env.serde.encodeManifest
    (transactionManifest env replacements.toList committed)) =
      .ok (transactionManifest env replacements.toList committed)

variable {expected : TextMap (Option String)} (uuid : String)

theorem commitJob_sound {env : Env} {replacements : TextMap Replacement}
    (hmanifest : ManifestReadsBack env replacements) (hvalid : validateGraph env files = .ok ())
    (hverify : verifyCommit env expected replacements files = .ok ()) :
    (commitJob uuid files replacements).Sound env where
  ids := by
    change (replacements.toList.map Prod.fst).Nodup
    rw [toList_keys]
    exact keys_nodup
  old := by
    unfold verifyCommit at hverify
    rw [bind_eq_ok] at hverify
    obtain ⟨current, -, hverify⟩ := hverify
    exact verifyReplacements_ok.mp (seq_eq_ok.mp hverify).2
  manifest := hmanifest
  valid := hvalid

/-- Some transaction's manifest is in its committed phase. -/
def ManifestCommitted (env : Env) (d : Disk) : Prop :=
  ∃ root manifestJson manifest, d.transactionFile root manifestPath = some manifestJson ∧
    env.serde.decodeManifest manifestJson = .ok manifest ∧ manifest.committed = true

theorem disk_transactionFile_eq {X : Files} {root : String}
    (h : (job.disk F X).transactionFile root path = some bytes) : X[path]? = some bytes := by
  by_cases hroot : job.root = root
  · rw [← hroot, job.disk_transactionFile] at h
    exact h
  · simp [Disk.transactionFile, Job.disk, get_insert_ne hroot] at h

theorem not_committed_of_phase {env : Env} {d : Disk} (hjob : job.Sound env)
    (h : Phase env job false d) : ¬ ManifestCommitted env d := by
  rintro ⟨root, manifestJson, manifest, hfile, hdecode, hcommitted⟩
  rcases h with ⟨F, X, rfl, hheld⟩ | ⟨-, hnone | hempty | ⟨X, rfl, hX⟩⟩
  · have hX := disk_transactionFile_eq hfile
    rw [hheld.manifest, Option.some.injEq] at hX
    rw [← hX, hjob.manifest, Except.ok.injEq] at hdecode
    rw [← hdecode] at hcommitted
    cases hcommitted
  · simp [Disk.transactionFile, hnone] at hfile
  · simp [Disk.transactionFile, hempty] at hfile
  · rw [disk_transactionFile_eq hfile] at hX
    cases hX

theorem publishTransaction_states {env : Env} {X : Files}
    (hready : X[manifestTemporary]? =
      some (env.serde.encodeManifest (transactionManifest env job.items true))) :
    ∃ rest, (publishTransaction env job.root job.items (job.disk job.before X)).states =
      job.disk job.before (published env job true X) :: rest := by
  have hfirst : (publishManifest job.root (job.disk job.before X)).states =
      [job.disk job.before (published env job true X)] := by
    have hfile : (job.disk job.before X).transactionFile job.root manifestTemporary =
        some (env.serde.encodeManifest (transactionManifest env job.items true)) := by
      rw [job.disk_transactionFile, hready]
    unfold publishManifest renameTransactionFile readTransactionFile
    rw [bind_states]
    simp only [Prog.check, hfile, nil_append, Prog.step, Prog.during]
    rw [job.disk_modifyTransaction]
    rfl
  unfold publishTransaction
  rw [bind_states, hfirst]
  exact ⟨_, rfl⟩

theorem commit_phase {env : Env} {uuid : String} {replacements : TextMap Replacement}
    {before : List Disk} {crashed : Disk} (hmanifest : ManifestReadsBack env replacements)
    (hvalid : validateGraph env files = .ok ())
    (hcrash : CrashesAt (commitReplacements env uuid expected replacements) ⟨files, none⟩
      before crashed) : (crashed = ⟨files, none⟩ ∧ before = []) ∨
    (commitJob uuid files replacements).Sound env ∧
      (((∀ d ∈ before ++ [crashed], ¬ ManifestCommitted env d) ∧
          Phase env (commitJob uuid files replacements) false crashed) ∨
       ((∃ d ∈ before ++ [crashed], ManifestCommitted env d) ∧
          Phase env (commitJob uuid files replacements) true crashed)) := by
  unfold commitReplacements at hcrash
  rcases hcrash.bind_cases with ⟨later, hlater⟩ | ⟨_, mid, later, hcheck, hbefore, hstates⟩
  · -- the checks take no step
    change [_] = before ++ crashed :: later at hlater
    cases before with
    | nil =>
      obtain ⟨rfl, -⟩ := List.cons.inj hlater
      exact .inl ⟨rfl, rfl⟩
    | cons x before => simp at hlater
  change verifyCommit env expected replacements files = .ok _ at hcheck
  change before = [⟨files, none⟩] ++ mid at hbefore
  have hjob := commitJob_sound uuid hmanifest hvalid hcheck
  refine .inr ⟨hjob, ?_⟩
  split at hstates
  · change [] = mid ++ crashed :: later at hstates
    simp at hstates
  have hstart : Phase env (commitJob uuid files replacements) false ⟨files, none⟩ :=
    .inr ⟨(Job.settled_false env (commitJob uuid files replacements)).symm, .inl rfl⟩
  have hstage : Meets (stageTransaction env ("tx-" ++ uuid) replacements.toList) ⟨files, none⟩ _
      (fun _ _ => False) (Phase env (commitJob uuid files replacements) false) :=
    stageTransaction_meets hjob
  have hrest : CrashesAt (stageTransaction env ("tx-" ++ uuid) replacements.toList >>= fun _ =>
      publishTransaction env ("tx-" ++ uuid) replacements.toList) ⟨files, none⟩ before crashed := by
    refine ⟨later, ?_⟩
    rw [hbefore]
    exact congrArg (List.cons _) hstates
  rcases hrest.bind_cases with ⟨later', hlater⟩ | ⟨u, mid', later', hstaged, hbefore', hpub⟩
  · -- a crash while staging: every disk so far is in the uncommitted phase
    have hphase : ∀ d ∈ before ++ [crashed], Phase env (commitJob uuid files replacements) false d := by
      intro d hd
      have hmem : d ∈ (⟨files, none⟩ : Disk) ::
          (stageTransaction env ("tx-" ++ uuid) replacements.toList ⟨files, none⟩).states := by
        rw [hlater]
        rcases mem_append.mp hd with hd | hd
        · exact mem_append_left _ hd
        · rw [mem_singleton.mp hd]
          simp
      rcases mem_cons.mp hmem with rfl | hmem
      · exact hstart
      · exact hstage.states d hmem
    exact .inl ⟨fun d hd => not_committed_of_phase hjob (hphase d hd), hphase _ (by simp)⟩
  · obtain ⟨X, hlast, hall, hready⟩ := hstage.ok u hstaged
    change (stageTransaction env ("tx-" ++ uuid) replacements.toList ⟨files, none⟩).last = _ at hlast
    rw [hlast] at hpub
    have hmeets := publishTransaction_meets hjob hall hready
    obtain ⟨rest, hfirst⟩ := publishTransaction_states hready
    change (publishTransaction env ("tx-" ++ uuid) replacements.toList _).states = _ at hfirst
    refine .inr ⟨?_, hmeets.states crashed ?_⟩
    · -- the commit itself is among the disks so far
      have hpublished := (held_published (c := true) hjob hall).manifest
      refine ⟨(commitJob uuid files replacements).disk
          (commitJob uuid files replacements).before _, ?_, "tx-" ++ uuid, _,
        transactionManifest env replacements.toList true,
        ((commitJob uuid files replacements).disk_transactionFile _ _ _).trans hpublished,
        hjob.manifest true, rfl⟩
      rw [hfirst] at hpub
      rw [hbefore']
      cases mid' with
      | nil =>
        obtain ⟨rfl, -⟩ := List.cons.inj hpub
        simp
      | cons x mid' =>
        obtain ⟨rfl, -⟩ := List.cons.inj hpub
        simp
    · change crashed ∈ (publishTransaction env ("tx-" ++ uuid) replacements.toList _).states
      rw [hpub]
      simp

/-- The files with every replacement made. -/
def replaceAll (files : Files) (replacements : TextMap Replacement) : Files :=
  replacements.toList.foldl (fun files item =>
    setFile files (recommendationFilename item.1) item.2.new) files

theorem landed_of_digestsDiffer {env : Env} {replacements : TextMap Replacement}
    (hdigest : DigestsDiffer env replacements) {id : String}
    (h : replacements[id]? = some replacement) : replacement.landed env = replacement.new := by
  unfold Replacement.landed
  split
  · rename_i hsame
    cases hnew : replacement.new with
    | none =>
      rw [hnew] at hsame
      exact Option.map_eq_none_iff.mp hsame
    | some new =>
      rw [hnew] at hsame
      obtain ⟨old, hold, hsame⟩ := Option.map_eq_some_iff.mp hsame
      rw [hold, hdigest id replacement old new h hold hnew hsame]
  · rfl

theorem after_eq_replaceAll {env : Env} {replacements : TextMap Replacement}
    (hdigest : DigestsDiffer env replacements) :
    (commitJob uuid files replacements).after env = replaceAll files replacements := by
  refine (Job.eq_after ?_ ?_ ?_).symm
  · change (replacements.toList.map Prod.fst).Nodup
    rw [toList_keys]
    exact keys_nodup
  · intro item hitem
    rw [landed_of_digestsDiffer hdigest (mem_toList.mp hitem)]
    refine foldl_setFile_mem (f := Replacement.new) ?_ hitem
    rw [toList_keys]
    exact keys_nodup
  · intro name hname
    exact foldl_setFile_ne (f := Replacement.new) hname

/-- What a completed recovery leaves: one of the two file sets as a whole, valid,
and nothing of the transaction; recovering again takes no step. -/
structure Recovered (env : Env) (files : Files) (d : Disk) : Prop where
  files : d.files = files
  valid : validateGraph env d.files = .ok ()
  clean : d.transactions = none
  again : recoverTransactions env d = ⟨[], .ok (), d⟩

theorem recovered_settled {env : Env} (hjob : job.Sound env) (c : Bool) :
    Recovered env (job.settled env c) ⟨job.settled env c, none⟩ where
  files := rfl
  valid := by
    unfold Job.settled
    split
    · rename_i h; exact h.2
    · exact hjob.valid
  clean := rfl
  again := rfl

/-- Crash atomicity: after a crash at any step of `commit_replacements` and any
number of crashed recoveries, a recovery that returns leaves all the old files if
the manifest had not reached its committed phase, and otherwise all the new ones,
unless they do not make a valid graph. It returns whenever the ids are valid. -/
theorem commit_crash_atomic (env : Env) (files : Files)
    (hvalid : validateGraph env files = .ok ()) (uuid : String)
    (expected : TextMap (Option String)) (replacements : TextMap Replacement)
    (hmanifest : ManifestReadsBack env replacements) (hdigest : DigestsDiffer env replacements)
    (before : List Disk) (crashed : Disk)
    (hcrash : CrashesAt (commitReplacements env uuid expected replacements) ⟨files, none⟩
      before crashed)
    (d : Disk) (hrecovering : Crashed (recoverTransactions env) crashed d) :
    ((∀ id ∈ replacements.keys, validId id = true) → (recoverTransactions env d).result = .ok ()) ∧
    ((recoverTransactions env d).result = .ok () →
      ((∀ e ∈ before ++ [crashed], ¬ ManifestCommitted env e) →
        Recovered env files (recoverTransactions env d).last) ∧
      ((∃ e ∈ before ++ [crashed], ManifestCommitted env e) →
        Recovered env (if validateGraph env (replaceAll files replacements) = .ok () then
          replaceAll files replacements else files) (recoverTransactions env d).last)) := by
  -- recovery keeps the phase it was entered in and settles it
  have hsettle : ∀ c, (commitJob uuid files replacements).Sound env →
      Phase env (commitJob uuid files replacements) c crashed →
      ((∀ id ∈ replacements.keys, validId id = true) →
        (recoverTransactions env d).result = .ok ()) ∧
      ((recoverTransactions env d).result = .ok () →
        Recovered env ((commitJob uuid files replacements).settled env c)
          (recoverTransactions env d).last) := by
    intro c hjob hphase
    have hphase' := hrecovering.invariant (Phase env (commitJob uuid files replacements) c)
      (fun e he => (recoverTransactions_meets hjob he).states) hphase
    have hmeets := recoverTransactions_meets hjob hphase'
    refine ⟨?_, ?_⟩
    · intro hids
      cases hr : (recoverTransactions env d).result with
      | ok _ => rfl
      | error e =>
        refine absurd ?_ (hmeets.error e hr).2
        intro item hitem
        rw [← toList_keys] at hids
        exact hids item.1 (mem_map_of_mem hitem)
    · intro hok
      rw [hmeets.ok _ hok]
      exact recovered_settled hjob c
  rcases commit_phase hmanifest hvalid hcrash with ⟨rfl, rfl⟩ | ⟨hjob, ⟨hnot, hphase⟩ | ⟨hreached, hphase⟩⟩
  · -- nothing was written, so every recovery returns at once
    have hd : d = ⟨files, none⟩ := by
      refine hrecovering.invariant (fun e => e = ⟨files, none⟩) ?_ rfl
      rintro e rfl t ht
      cases ht
    subst hd
    refine ⟨fun _ => rfl, fun _ => ⟨fun _ => ⟨rfl, hvalid, rfl, rfl⟩, ?_⟩⟩
    rintro ⟨e, he, root, bytes, manifest, hfile, -⟩
    rw [nil_append, mem_singleton] at he
    subst he
    cases hfile
  · obtain ⟨hlive, hsafe⟩ := hsettle false hjob hphase
    refine ⟨hlive, fun hok => ⟨fun _ => ?_, ?_⟩⟩
    · have hold := hsafe hok
      rw [Job.settled_false] at hold
      exact hold
    · rintro ⟨e, he, hcommitted⟩
      exact absurd hcommitted (hnot e he)
  · obtain ⟨hlive, hsafe⟩ := hsettle true hjob hphase
    refine ⟨hlive, fun hok => ⟨?_, fun _ => ?_⟩⟩
    · intro hnot
      obtain ⟨e, he, hcommitted⟩ := hreached
      exact absurd hcommitted (hnot e he)
    · have hnew := hsafe hok
      simp only [Job.settled, Job.NewValid, after_eq_replaceAll uuid hdigest, true_and] at hnew
      exact hnew

/-! ## A transaction that adds one record -/

/-- A commit that passes its checks and has something to do reaches its commit
point. -/
theorem commit_reaches {env : Env} {replacements : TextMap Replacement}
    (hmanifest : ManifestReadsBack env replacements) (hvalid : validateGraph env files = .ok ())
    (hverify : verifyCommit env expected replacements files = .ok ())
    (hsome : replacements.isEmpty = false) :
    ∃ before crashed, CrashesAt (commitReplacements env uuid expected replacements) ⟨files, none⟩
      before crashed ∧ ManifestCommitted env crashed := by
  have hjob := commitJob_sound uuid hmanifest hvalid hverify
  have hstage : Meets (stageTransaction env ("tx-" ++ uuid) replacements.toList) ⟨files, none⟩ _
      (fun _ _ => False) (Phase env (commitJob uuid files replacements) false) :=
    stageTransaction_meets hjob
  obtain ⟨u, hstaged⟩ : ∃ u, (stageTransaction env ("tx-" ++ uuid) replacements.toList
      ⟨files, none⟩).result = .ok u := by
    cases hr : (stageTransaction env ("tx-" ++ uuid) replacements.toList ⟨files, none⟩).result with
    | ok u => exact ⟨u, rfl⟩
    | error e => exact (hstage.error e hr).elim
  obtain ⟨X, hlast, hall, hready⟩ := hstage.ok u hstaged
  obtain ⟨rest, hfirst⟩ := publishTransaction_states hready
  change (publishTransaction env ("tx-" ++ uuid) replacements.toList _).states = _ at hfirst
  refine ⟨⟨files, none⟩ :: (stageTransaction env ("tx-" ++ uuid) replacements.toList
      ⟨files, none⟩).states, (commitJob uuid files replacements).disk files
      (published env (commitJob uuid files replacements) true X), ⟨rest, ?_⟩, ?_⟩
  · have hcheck : (Prog.check (fun d : Disk => verifyCommit env expected replacements d.files)
        ⟨files, none⟩).result = .ok () := hverify
    unfold commitReplacements
    have hstart : Prog.check (fun d : Disk => verifyCommit env expected replacements d.files)
        ⟨files, none⟩ = ⟨[], .ok (), ⟨files, none⟩⟩ := by rw [← hcheck]; rfl
    rw [bind_states, hstart]
    simp only [hsome, Bool.false_eq_true, if_false, nil_append]
    rw [bind_states, hstaged]
    simp only [hlast, hfirst, cons_append]
    rfl
  · exact ⟨"tx-" ++ uuid, _, transactionManifest env replacements.toList true,
      ((commitJob uuid files replacements).disk_transactionFile _ _ _).trans
        (held_published (c := true) hjob hall).manifest, hjob.manifest true, rfl⟩

namespace Sample

def record : Recommendation where
  assessment := none
  id := "a"
  workspaceId := "w"
  chainId := "c"
  chainDepth := 0
  recommendationType := .improveWorkflow
  status := .proposed
  priority := .low
  title := ""
  summary := ""
  reason := []
  evidence := []
  repositoryEvidence := []
  knowledgeEvidence := []
  sourceSessionIds := []
  targetSessionId := none
  suggestedHarnessId := none
  suggestedModel := none
  suggestedWorkingDirectory := none
  suggestedPrompt := none
  confidence := .high
  requiresApproval := false
  dedupeKey := "k"
  createdAt := "2026-01-01T00:00:00Z"
  updatedAt := "2026-01-01T00:00:00Z"
  expiresAt := none
  workflowImprovement :=
    { proposedImprovement := ""
      targetSurface := .test
      observationIds := []
      recurrenceCount := 0
      affectedSessionIds := []
      impact := .low
      expectedBenefit := ""
      supersedesRecommendationId := none
      dismissalWatermark := none }
  completionPacket := none
  audit := none
  rollupMemberIds := []
  rollupMemberDedupeKeys := []
  rollupGeneration := none
  rolledUpBy := none
  proposedChange := none

/-- A text given by its lines. -/
def document (lines : List String) : Bytes := (lines.intersperse "\n").flatMap utf8

def textLine (key value : String) : String := "  \"" ++ key ++ "\": \"" ++ value ++ "\","

/-- Lines with a comma after each but the last. -/
def separated : List String → List String
  | [] => []
  | [line] => [line]
  | line :: lines => (line ++ ",") :: separated lines

def textsLines (key : String) (items : List String) : List String :=
  if items = [] then ["  \"" ++ key ++ "\": [],"]
  else ("  \"" ++ key ++ "\": [")
    :: separated (items.map (fun item => "    \"" ++ item ++ "\"")) ++ ["  ],"]

def knowledgeLines (r : Recommendation) : List String :=
  r.knowledgeEvidence.flatMap (fun page =>
    ["  \"knowledgeEvidence\": [", "    \x7b", "      \"pageId\": \"" ++ page.pageId ++ "\",",
      "      \"title\": \"" ++ page.title ++ "\",", "      \"status\": \"" ++ page.status ++ "\",",
      "      \"bundleVersion\": \"" ++ page.bundleVersion ++ "\",",
      "      \"sha256\": \"" ++ page.sha256 ++ "\",",
      "      \"excerpt\": \"" ++ page.excerpt ++ "\"", "    \x7d", "  ],"])

def changeLines (r : Recommendation) : List String :=
  if r.proposedChange.isNone then ["  \"proposedChange\": null"]
  else ["  \"proposedChange\": \x7b", "    \"summary\": \"Document the build step\",",
    "    \"targets\": [", "      \x7b", "        \"path\": \"docs/build.md\",",
    "        \"action\": \"edit\",", "        \"instruction\": \"Describe the step\",",
    "        \"sensitive\": false", "      \x7d", "    ],", "    \"verification\": \"Read it\"", "  \x7d"]

/-- The samples as `serde_json::to_vec_pretty` writes them. -/
def recordText (r : Recommendation) : Bytes := document (
  ["\x7b", textLine "id" r.id, textLine "workspaceId" r.workspaceId, textLine "chainId" r.chainId,
    "  \"chainDepth\": " ++ toString r.chainDepth ++ ",", "  \"type\": \"improve_workflow\",",
    textLine "status" (if r.status = .rolledUp then "rolled_up" else "proposed"),
    "  \"priority\": \"low\",", textLine "title" r.title, textLine "summary" r.summary]
  ++ textsLines "reason" r.reason ++ ["  \"evidence\": [],"] ++ knowledgeLines r
  ++ ["  \"sourceSessionIds\": [],", "  \"targetSessionId\": null,",
    "  \"suggestedHarnessId\": null,", "  \"suggestedModel\": null,",
    "  \"suggestedWorkingDirectory\": null,", "  \"suggestedPrompt\": null,",
    "  \"confidence\": \"high\",", "  \"requiresApproval\": false,",
    textLine "dedupeKey" r.dedupeKey, textLine "createdAt" r.createdAt,
    textLine "updatedAt" r.updatedAt, "  \"expiresAt\": null,", "  \"workflowImprovement\": \x7b",
    "  " ++ textLine "proposedImprovement" r.workflowImprovement.proposedImprovement,
    "    \"targetSurface\": \"test\",", "    \"observationIds\": [],", "    \"recurrenceCount\": 0,",
    "    \"affectedSessionIds\": [],", "    \"impact\": \"low\",", "    \"expectedBenefit\": \"\",",
    "    \"supersedesRecommendationId\": null,", "    \"dismissalWatermark\": null", "  \x7d,"]
  ++ textsLines "rollupMemberIds" r.rollupMemberIds
  ++ textsLines "rollupMemberDedupeKeys" r.rollupMemberDedupeKeys
  ++ ["  \"rollupGeneration\": " ++ (r.rollupGeneration.map toString).getD "null" ++ ",",
    r.rolledUpBy.elim "  \"rolledUpBy\": null," (textLine "rolledUpBy")]
  ++ changeLines r ++ ["\x7d"])

def orNull (value : Option String) : String := value.elim "null" (fun text => "\"" ++ text ++ "\"")

def entryText (entry : RollupTransactionEntry) : String :=
  "    \x7b\n      \"id\": \"" ++ entry.id ++ "\",\n      \"target\": \"" ++ entry.target
    ++ "\",\n      \"staged\": " ++ orNull entry.staged ++ ",\n      \"backup\": "
    ++ orNull entry.backup ++ ",\n      \"oldSha256\": " ++ orNull entry.oldSha256
    ++ ",\n      \"oldExists\": " ++ toString entry.oldExists ++ ",\n      \"newSha256\": "
    ++ orNull entry.newSha256 ++ ",\n      \"newExists\": " ++ toString entry.newExists
    ++ "\n    \x7d"

def manifestText (m : RollupTransactionManifest) : Bytes := document (
  ["\x7b", "  \"version\": 2,", "  \"committed\": " ++ toString m.committed ++ ",",
    "  \"entries\": ["] ++ separated (m.entries.map entryText) ++ ["  ]", "\x7d"])

def json : Bytes := recordText record

/-- Its SHA-256. -/
def digest : String := "e4989fc87842d98510e9a46202331504681c47d385c7c312984d9fc558ca8fac"

/-- The manifest of the transaction that adds the record. -/
def manifest (committed : Bool) : RollupTransactionManifest where
  version := 2
  committed := committed
  entries :=
    [{ id := "a"
       target := "a.json"
       staged := some "staged/a.json"
       backup := none
       oldSha256 := none
       oldExists := false
       newSha256 := some digest
       newExists := true }]

def manifestJson (committed : Bool) : Bytes := manifestText (manifest committed)

/-- The digests and formats on the contents this transaction meets. -/
def env : Env where
  digests :=
    { sha256 := fun _ => digest
      stableId := fun _ _ => ""
      evidenceJson := fun _ => []
      actionJson := fun _ => []
      isUuid := fun _ => false }
  serde :=
    { encode := fun _ => json
      decode := fun _ => .ok record
      encodeManifest := fun m => manifestJson m.committed
      decodeManifest := fun bytes =>
        if bytes = manifestJson false then .ok (manifest false) else .ok (manifest true) }

def replacements : TextMap Replacement := (∅ : TextMap Replacement).insert "a" ⟨none, some json⟩

theorem toList_replacements : replacements.toList = [("a", ⟨none, some json⟩)] :=
  toList_singleton

theorem replaceAll_replacements :
    replaceAll ∅ replacements = (∅ : Files).insert "a.json" json := by
  rw [replaceAll, toList_replacements]
  have hname : recommendationFilename "a" = "a.json" := by decide
  simp only [foldl_cons, foldl_nil, hname]
  rfl

theorem transactionManifest_replacements (committed : Bool) :
    transactionManifest env replacements.toList committed = manifest committed := by
  rw [toList_replacements]
  have hname : recommendationFilename "a" = "a.json" := by decide
  have hstaged : transactionStagedPath "a" = "staged/a.json" := by decide
  simp [transactionManifest, manifestEntry, manifest, hname, hstaged, env]

theorem manifestJson_ne : manifestJson true ≠ manifestJson false := by decide

theorem manifestReadsBack : ManifestReadsBack env replacements := by
  intro committed
  rw [transactionManifest_replacements]
  cases committed with
  | false => simp [env, manifest]
  | true => simp [env, manifest, manifestJson_ne]

theorem validateGraph_new : validateGraph env (replaceAll ∅ replacements) = .ok () := by
  have hjson : isJsonFile "a.json" = true := by decide
  have hrecord : readRecord env json = .ok record := rfl
  have hgraph : validateGraphRecords env.digests [record] = .ok () := by decide
  rw [replaceAll_replacements]
  unfold validateGraph readAll readAllStored
  rw [toList_singleton]
  simp only [readFiles, hjson, if_true, hrecord]
  exact hgraph

end Sample

open Sample

/-- A crash at the commit point of a transaction that adds a record: recovery
completes it. -/
theorem added_record_recovered :
    ∃ before crashed, CrashesAt (commitReplacements env "0" ∅ replacements)
        ⟨∅, none⟩ before crashed ∧ ManifestCommitted env crashed ∧
      Recovered env ((∅ : Files).insert "a.json" json)
        (recoverTransactions env crashed).last := by
  have hempty : validateGraph env ∅ = .ok () := by decide
  have hdigest : DigestsDiffer env replacements := by
    intro id replacement old new hmem hold
    have hitem : (id, replacement) ∈ replacements.toList := mem_toList.mpr hmem
    rw [toList_replacements, mem_singleton, Prod.mk.injEq] at hitem
    rw [hitem.2] at hold
    cases hold
  have hverify : verifyCommit env ∅ replacements ∅ = .ok () := by decide
  obtain ⟨before, crashed, hcrash, hcommitted⟩ :=
    commit_reaches "0" manifestReadsBack hempty hverify (by decide)
  obtain ⟨hlive, hsafe⟩ := commit_crash_atomic env ∅ hempty "0" ∅ replacements
    manifestReadsBack hdigest before crashed hcrash crashed (.none _)
  have hids : ∀ id ∈ replacements.keys, validId id = true := by
    intro id hid
    rw [replacements, keys_singleton, mem_singleton] at hid
    rw [hid]
    decide
  have hnew := (hsafe (hlive hids)).2 ⟨crashed, by simp, hcommitted⟩
  rw [if_pos validateGraph_new, replaceAll_replacements] at hnew
  exact ⟨before, crashed, hcrash, hcommitted, hnew⟩

end Orkworksd.Taskmaster
