import Orkworksd.Taskmaster.StoreValidity

/- Graph transactions are optimistic and conservative.

   `apply_recommendation_graph_transaction` first recovers what an earlier call
   left; the store it then reads is the recovered one. From there it has four
   ends: its checks refuse and nothing was written; it stops while it stages, and
   no record file was touched; it publishes, and the directory holds the records it
   was given; or the published graph turns out invalid and is rolled back, which is
   after the commit.

   Nothing is assumed of the directory. A record may be in a file that is not named
   after its id: the transaction then leaves that file alone or is refused. The
   digests are assumed to tell the contents it compares apart. -/
namespace Orkworksd.Taskmaster
open Lib Prog TextMap

/-! ## A recovery that returns leaves no transaction behind -/

/-- Every transaction directory is one of `names`. -/
def Within (names : List String) (d : Disk) : Prop :=
  ∃ roots, d.transactions = some roots ∧ ∀ root ∈ roots.keys, root ∈ names

/-- The program makes no transaction directory, whether it returns or fails. -/
def Confined {α : Type} (p : StoreM α) : Prop :=
  ∀ names d, Within names d →
    Meets p d (fun _ => Within names) (fun _ => Within names) (fun _ => True)

section confined
variable {α β : Type} {names : List String} {d : Disk}

variable {p : StoreM α}

theorem Confined.bind {f : α → StoreM β} (hp : Confined p) (hf : ∀ a, Confined (f a)) :
    Confined (p >>= f) := by
  intro names d h
  exact Meets.seq (hp names d h) (fun a t ht => hf a names t ht)

theorem Confined.value (a : α) : Confined (Pure.pure a : StoreM α) := fun _ _ h => Meets.pure' h

theorem Confined.fail (e : StoreError) : Confined (Prog.fail e : StoreM α) :=
  fun _ _ h => Meets.fail' h

theorem Confined.look (f : Disk → α) : Confined (Prog.look f : StoreM α) :=
  fun _ _ h => Meets.look' h

theorem Confined.check (f : Disk → Except StoreError α) : Confined (Prog.check f) :=
  fun _ _ h => Meets.check' (fun _ _ => h) (fun _ _ => h)

theorem Confined.attempt (hp : Confined p) : Confined (Prog.attempt p) :=
  fun names d h => Meets.attempt' (hp names d h)

theorem Confined.ite {c : Prop} [Decidable c] {q : StoreM α} (hp : Confined p) (hq : Confined q) :
    Confined (if c then p else q) := by
  split
  · exact hp
  · exact hq

variable {f : Disk → Disk}

theorem Confined.during {mid : Disk → List Disk}
    (hf : ∀ names d, Within names d → Within names (f d)) : Confined (Prog.during mid f) :=
  fun names d h => Meets.during' (fun _ _ => trivial) trivial (hf names d h)

theorem Confined.step (hf : ∀ names d, Within names d → Within names (f d)) :
    Confined (Prog.step f) :=
  Confined.during hf

theorem Confined.forEach {body : β → StoreM Unit} (hbody : ∀ b, Confined (body b)) (bs : List β) :
    Confined (Prog.forEach body bs) := by
  induction bs with
  | nil => exact Confined.value ()
  | cons b bs ih => exact (hbody b).bind (fun _ => ih)

theorem within_files (h : Within names d) (files : Files) : Within names { d with files := files } :=
  h

theorem within_modify (h : Within names d) (root : String) (f : Files → Files) :
    Within names (d.modifyTransaction root f) := by
  obtain ⟨roots, hroots, hnames⟩ := h
  refine ⟨roots.modify root f, by simp [Disk.modifyTransaction, hroots], ?_⟩
  intro name hname
  obtain ⟨files, hfiles⟩ := TextMap.mem_keys.mp hname
  rw [get_modify] at hfiles
  split at hfiles
  · obtain ⟨old, hold, -⟩ := Option.map_eq_some_iff.mp hfiles
    exact hnames name (TextMap.mem_keys.mpr ⟨old, hold⟩)
  · exact hnames name (TextMap.mem_keys.mpr ⟨files, hfiles⟩)

variable (env : Env) (root : String)

variable (path : String)

theorem confined_writeSync (bytes : Bytes) : Confined (writeSync root path bytes) :=
  Confined.during (fun _ _ h => within_modify h root _)

theorem confined_read : Confined (readTransactionFile root path) :=
  Confined.check _

variable (target : String)

theorem confined_replaceTarget : Confined (replaceTarget root path target) :=
  (confined_read root path).bind (fun _ => Confined.step (fun _ _ h =>
    within_files (within_modify h root _) _))

theorem confined_rename : Confined (renameTransactionFile root path target) :=
  (confined_read root path).bind (fun _ => Confined.step (fun _ _ h => within_modify h root _))

theorem confined_removeTarget : Confined (removeTarget target) :=
  Confined.step (fun _ _ h => within_files h _)

theorem confined_removeFile : Confined (removeTransactionFile root path) :=
  (confined_read root path).bind (fun _ => Confined.step (fun _ _ h => within_modify h root _))

variable (entry : RollupTransactionEntry)

theorem confined_publishEntry : Confined (publishEntry env root entry) := by
  unfold publishEntry
  refine Confined.ite (confined_removeTarget _) ((Confined.look _).bind (fun current => ?_))
  refine Confined.ite (Confined.value ()) ?_
  cases entry.staged with
  | none => exact Confined.fail _
  | some staged =>
    exact (confined_read root staged).bind (fun _ =>
      Confined.ite (Confined.fail _) (confined_replaceTarget root _ _))

theorem confined_rollbackEntry : Confined (rollbackEntry env root entry) := by
  unfold rollbackEntry
  refine Confined.ite ?_ (confined_removeTarget _)
  cases entry.backup with
  | none => exact Confined.fail _
  | some backup =>
    exact (confined_read root backup).bind (fun _ => Confined.ite (Confined.fail _)
      ((confined_writeSync root _ _).bind (fun _ => confined_replaceTarget root _ _)))

variable (source destination id : String)

theorem confined_migrateTarget : Confined (migrateTarget source destination id) := by
  refine (Confined.look _).bind (fun files => Confined.ite (Confined.value ()) ?_)
  split
  · exact Confined.value ()
  · exact Confined.ite (Confined.fail _) (Confined.step (fun _ _ h => within_files h _))

theorem confined_migrateFile : Confined (migrateTransactionFile root source destination id) :=
  (Confined.look _).bind (fun _ => Confined.ite (Confined.value ())
    (Confined.ite (Confined.fail _) (confined_rename root _ _)))

theorem confined_migrateOptional (path : Option String) (legacy current id : String) :
    Confined (migrateOptionalTransactionPath root path legacy current id) :=
  Confined.ite (Confined.value _)
    ((confined_migrateFile root _ _ _).bind (fun _ => Confined.value _))

theorem confined_migrateEntry : Confined (migrateLegacyEntry root entry) := by
  unfold migrateLegacyEntry
  refine Confined.ite (Confined.value _) ?_
  -- the target is settled in both branches before the other two paths
  dsimp only
  refine Confined.ite ((confined_migrateTarget _ _ _).bind (fun _ => ?_)) ?_
  all_goals
    refine (Confined.value _).bind (fun target => ?_)
    exact (confined_migrateOptional root _ _ _ _).bind (fun _ =>
      (confined_migrateOptional root _ _ _ _).bind (fun _ => Confined.value _))

theorem confined_currentEntries (manifest : RollupTransactionManifest) :
    Confined (currentEntries root manifest) := by
  have hall : ∀ entries, Confined (migrateLegacyTransactionPaths root entries) := by
    intro entries
    induction entries with
    | nil => exact Confined.value _
    | cons entry entries ih =>
      exact (confined_migrateEntry root entry).bind (fun _ => ih.bind (fun _ => Confined.value _))
  exact Confined.ite (Confined.fail _) (Confined.ite (hall _) (Confined.value _))

variable {rest : List String}

theorem removeDir_within (h : Within (root :: rest) d) :
    Meets (removeTransactionDir root) d (fun _ => Within rest) (fun _ _ => True)
      (fun _ => True) := by
  refine Meets.during' (fun _ _ => trivial) trivial ?_
  obtain ⟨roots, hroots, hnames⟩ := h
  refine ⟨roots.erase root, by simp [hroots], ?_⟩
  intro name hname
  obtain ⟨files, hfiles⟩ := TextMap.mem_keys.mp hname
  rw [get_erase] at hfiles
  split at hfiles
  · cases hfiles
  · rename_i hne
    have hmem := hnames name (TextMap.mem_keys.mpr ⟨files, hfiles⟩)
    exact (List.mem_cons.mp hmem).resolve_left (fun heq => hne heq.symm)

theorem Confined.then_remove (hp : Confined p) {q : α → StoreM Unit} (h : Within (root :: rest) d)
    (hq : ∀ a d', Within (root :: rest) d' →
      Meets (q a) d' (fun _ => Within rest) (fun _ _ => True) (fun _ => True)) :
    Meets (p >>= q) d (fun _ => Within rest) (fun _ _ => True) (fun _ => True) :=
  Meets.seq ((hp _ _ h).mono (fun _ _ hd => hd) (fun _ _ _ => trivial) (fun _ _ => trivial)) hq

theorem finish_within (h : Within (root :: rest) d) :
    Meets (finishTransactionCleanup root) d (fun _ => Within rest) (fun _ _ => True)
      (fun _ => True) :=
  (confined_removeFile root _).then_remove root h (fun _ _ h' => removeDir_within root h')

theorem rollBack_within (entries : List RollupTransactionEntry) (h : Within (root :: rest) d) :
    Meets (rollBackAndFinish env root entries) d (fun _ => Within rest) (fun _ _ => True)
      (fun _ => True) := by
  refine (Confined.forEach (confined_rollbackEntry env root) entries).then_remove root h ?_
  intro _ d' h'
  exact (Confined.check _).then_remove root h' (fun _ _ h'' => finish_within root h'')

theorem recoverDirectory_within (h : Within (root :: rest) d) :
    Meets (recoverDirectory env root) d (fun _ => Within rest) (fun _ _ => True)
      (fun _ => True) := by
  refine (Confined.look _).then_remove root h ?_
  intro manifest d' h'
  cases manifest with
  | none => exact removeDir_within root h'
  | some manifestJson =>
    unfold recoverTransaction
    dsimp only
    split
    · exact Meets.fail' trivial
    · rename_i manifest _
      refine (confined_currentEntries root manifest).then_remove root h' ?_
      intro entries d₁ h₁
      refine (Confined.check _).then_remove root h₁ ?_
      intro _ d₂ h₂
      refine Meets.ite' (fun _ => ?_) (fun _ => rollBack_within env root entries h₂)
      have hpublish := Confined.attempt (Confined.forEach (confined_publishEntry env root) entries)
      refine hpublish.then_remove root h₂ ?_
      intro published d₃ h₃
      refine (Confined.look _).then_remove root h₃ ?_
      intro graph d₄ h₄
      split
      · exact finish_within root h₄
      · exact rollBack_within env root entries h₄

end confined

theorem recovered_clean {env : Env} {d : Disk} (h : (recoverTransactions env d).result = .ok ()) :
    (recoverTransactions env d).last.transactions = none := by
  have hmeets : Meets (recoverTransactions env) d (fun _ d' => d'.transactions = none)
      (fun _ _ => True) (fun _ => True) := by
    refine Meets.bind' (Meets.look' ?_)
    cases htransactions : d.transactions with
    | none => exact Meets.pure' htransactions
    | some roots =>
      have hbody : ∀ root rest t, Within (root :: rest) t → Meets (recoverDirectory env root) t
          (fun _ u => Within rest u) (fun _ _ => True) (fun _ => True) :=
        fun root rest t ht => recoverDirectory_within env root ht
      have hloop := Meets.forEach' hbody roots.keys ⟨roots, htransactions, fun _ hroot => hroot⟩
      refine Meets.seq hloop ?_
      rintro _ d' ⟨left, hleft, hnone⟩
      have hempty : left = ∅ := by
        apply TextMap.ext
        intro name
        rw [get_empty, ← Option.not_isSome_iff_eq_none, Option.isSome_iff_exists]
        intro hfiles
        have := hnone name (TextMap.mem_keys.mpr hfiles)
        cases this
      refine Meets.bind' (Meets.look' (Meets.ite' (fun _ => Meets.step' trivial rfl) ?_))
      intro hne
      refine absurd ?_ hne
      rw [hleft, hempty]
      simp
  exact hmeets.ok () h

theorem recovered_disk {env : Env} {d : Disk} (h : (recoverTransactions env d).result = .ok ()) :
    (recoverTransactions env d).last = ⟨(recoverTransactions env d).last.files, none⟩ := by
  have hnone := recovered_clean h
  generalize (recoverTransactions env d).last = s at hnone
  obtain ⟨files, transactions⟩ := s
  cases hnone
  rfl

/-! ## The files a published transaction leaves -/

/-- No two contents that a transaction compares share a digest. -/
def DigestsTellApart (env : Env) (files : Files) (records : List Recommendation) : Prop :=
  ∀ r ∈ records, ∀ bytes, files[recommendationFilename r.id]? = some bytes →
    env.digests.sha256 bytes = env.digests.sha256 (env.serde.encode r) → bytes = env.serde.encode r

/-- What a transaction that returned made of the directory. -/
structure Applied (env : Env) (records : List Recommendation) (before after : Files) : Prop where
  /-- The graph is valid, so that an id names one record. -/
  valid : validateGraph env after = .ok ()
  terminal : ∀ r, Contains env before r → finalStatus r.status = true → Contains env after r
  kept : ∀ r, Contains env before r → ∃ r' ∈ records, r'.id = r.id ∧ Contains env after r'
  only : ∀ r, Contains env after r → r ∈ records
  written : ∀ r ∈ records, ∃ name : String, after[name]? = some (env.serde.encode r) ∧
    (name = recommendationFilename r.id ∨ before[name]? = some (env.serde.encode r))
  untouched : ∀ name : String, (∀ r ∈ records, recommendationFilename r.id ≠ name) →
    after[name]? = before[name]?

section transaction
variable {env : Env} {uuid : String} {expected : TextMap (Option String)}
  {records : List Recommendation} {files : Files} {replacements : TextMap Replacement}

theorem Planned.applied {stored : Stored} {after : Files} (hserde : env.serde.Lawful)
    (h : Planned env expected records files stored replacements)
    (hfiles : Replaced replacements files after) (hafter : validateGraph env after = .ok ()) :
    Applied env records files after where
  valid := hafter
  terminal := by
    intro r hr hfinal
    obtain ⟨r', hr', -, hsame⟩ := h.kept r hr
    have hr'' := hsame hfinal
    subst hr''
    exact h.contains hserde hfiles hafter hr' (validId_ne_empty (h.safe _ hr))
  kept := by
    intro r hr
    obtain ⟨r', hr', hid, -⟩ := h.kept r hr
    refine ⟨r', hr', hid, h.contains hserde hfiles hafter hr' ?_⟩
    rw [hid]
    exact validId_ne_empty (h.safe _ hr)
  only := fun r hr => h.only hserde hfiles hr
  written := by
    intro r hr
    rcases h.written hfiles hr with hfile | ⟨name, -, hfile, hbefore⟩
    · exact ⟨_, hfile, .inl rfl⟩
    · exact ⟨name, hfile, .inr hbefore⟩
  untouched := by
    intro name hname
    refine hfiles.others name ?_
    intro id hid
    obtain ⟨replacement, hitem⟩ := TextMap.mem_keys.mp hid
    obtain ⟨r, hr, rfl, -⟩ := h.replaced hitem
    exact hname r hr

/-! ## The transaction -/

/-- `apply_recommendation_graph_transaction` on the recovered store. -/
def applyRecovered (env : Env) (uuid : String) (expected : TextMap (Option String))
    (records : List Recommendation) : StoreM Unit := do
  let replacements ← Prog.check (fun d => graphPlan env expected records d.files)
  commitReplacements env uuid expected replacements

theorem Planned.digests {stored : Stored}
    (h : Planned env expected records files stored replacements)
    (hold : ∀ id replacement, replacements[id]? = some replacement →
      files[recommendationFilename id]? = replacement.old)
    (hdigest : DigestsTellApart env files records) : DigestsDiffer env replacements := by
  intro id replacement old new hget hold' hnew hsame
  have hfile := hold id replacement hget
  obtain ⟨r, hr, rfl, -, rfl⟩ := h.replaced hget
  cases hnew
  exact hdigest r hr old (hfile.trans hold') hsame

/-- The record files are back, and so is the store once it is recovered, which it
is if the ids of the transaction were expected or stored. -/
structure RolledBack (env : Env) (expected : TextMap (Option String))
    (records : List Recommendation) (files : Files) (d : Disk) : Prop where
  committed : ManifestCommitted env d
  restored : d.files = files
  recovers : (∀ r ∈ records, (∃ r', Contains env files r' ∧ r'.id = r.id) ∨ r.id ∈ expected.keys) →
    (recoverTransactions env d).result = .ok () ∧ (recoverTransactions env d).last = ⟨files, none⟩

/-- On the recovered store the call returns with the graph applied, or fails and
has written nothing, or fails after its commit and has rolled back. -/
theorem applyRecovered_meets (hserde : env.serde.Lawful)
    (hdigest : DigestsTellApart env files records) :
    Meets (applyRecovered env uuid expected records) ⟨files, none⟩
      (fun _ d => Applied env records files d.files)
      (fun _ d => d = ⟨files, none⟩ ∨ RolledBack env expected records files d)
      (fun _ => True) := by
  refine Meets.bind' (Meets.check' ?_ (fun _ _ => .inl rfl))
  intro replacements hplan
  change graphPlan env expected records files = .ok replacements at hplan
  obtain ⟨stored, hplanned⟩ := graphPlan_planned hplan
  refine (commit_meets hserde hplanned.valid uuid).mono ?_ ?_ (fun _ _ => trivial)
  · rintro _ d ⟨hverify, hcommitted⟩
    have hdiffer := hplanned.digests (verifyCommit_old hverify) hdigest
    obtain ⟨hfiles, hafter⟩ := hcommitted.replaced hplanned.valid hverify
      (fun _ _ => landed_of_digestsDiffer hdiffer)
    exact hplanned.applied hserde hfiles hafter
  · rintro _ d (⟨-, rfl⟩ | ⟨-, hjob, hinvalid, X, rfl, hheld⟩)
    · exact .inl rfl
    refine .inr ⟨⟨"tx-" ++ uuid, _, transactionManifest env replacements.toList true, ?_,
      hjob.manifest true, rfl⟩, rfl, ?_⟩
    · exact ((commitJob uuid files replacements).disk_transactionFile _ _ _).trans hheld.manifest
    · intro hknown
      have hsettled : (commitJob uuid files replacements).settled env true = files :=
        if_neg (fun h => hinvalid h.2)
      have hrecover := recoverTransactions_held hjob hheld
      rw [hsettled] at hrecover
      cases hr : (recoverTransactions env
          ((commitJob uuid files replacements).disk files X)).result with
      | ok u => exact ⟨rfl, (hrecover.ok u hr).1⟩
      | error e => exact absurd (graphPlan_safe hplan hknown) (hrecover.error e hr).2

theorem applyRecovered_stopped (hserde : env.serde.Lawful) {before : List Disk} {stopped : Disk}
    (hstop : CrashesAt (applyRecovered env uuid expected records) ⟨files, none⟩ before stopped)
    (hnot : ∀ t ∈ before ++ [stopped], ¬ ManifestCommitted env t) :
    stopped.files = files ∧ ((recoverTransactions env stopped).result = .ok () →
      (recoverTransactions env stopped).last = ⟨files, none⟩) := by
  have hstart : ∀ d : Disk, d = ⟨files, none⟩ → d.files = files ∧
      ((recoverTransactions env d).result = .ok () →
        (recoverTransactions env d).last = ⟨files, none⟩) := by
    rintro d rfl
    exact ⟨rfl, fun _ => rfl⟩
  obtain ⟨later, hlater⟩ | ⟨replacements, mid, later, hplan, hbefore, hstates⟩ := hstop.bind_cases
  · change [_] = before ++ stopped :: later at hlater
    cases before with
    | nil => exact hstart stopped (List.cons.inj hlater).1.symm
    | cons x before => simp at hlater
  change graphPlan env expected records files = .ok replacements at hplan
  obtain ⟨stored, hplanned⟩ := graphPlan_planned hplan
  have hcommit : CrashesAt (commitReplacements env uuid expected replacements) ⟨files, none⟩ before
      stopped := by
    refine ⟨later, ?_⟩
    rw [hbefore]
    exact congrArg (List.cons _) hstates
  rcases commit_phase (fun _ => hserde.decodeManifest_encode _) hplanned.valid hcommit with
    ⟨hsame, -⟩ | ⟨hjob, ⟨-, hphase⟩ | ⟨hreached, -⟩⟩
  · exact hstart stopped hsame
  · refine ⟨?_, ?_⟩
    · rcases hphase with ⟨F, X, rfl, hheld⟩ | ⟨hfiles, -⟩
      · refine Job.eq_before hjob ?_ hheld.others
        intro item hitem
        exact (hheld.mixed item hitem).resolve_right (fun h => absurd h.1 (by simp))
      · rw [hfiles, Job.settled_false]
        rfl
    · intro hok
      rw [(recoverTransactions_meets hjob hphase).ok () hok, Job.settled_false]
      rfl
  · obtain ⟨t, ht, hcommitted⟩ := hreached
    exact absurd hcommitted (hnot t ht)

end transaction

/-- Graph transactions are optimistic and conservative. Let `s` be the store the
call finds, once what an earlier call left is recovered. An expected hash that is
not the one of the record's file makes the call fail and leave `s`. A call that
returns leaves a graph `Applied` to `s`. A call that fails leaves `s`, unless its
manifest is in its committed phase; and wherever it is stopped before that, no
record file has changed and a recovery gives `s` back. -/
theorem graph_transaction_conservative (env : Env) (hserde : env.serde.Lawful) (uuid : String)
    (expected : TextMap (Option String)) (records : List Recommendation) (d s : Disk)
    (hs : s = (recoverTransactions env d).last)
    (hdigest : DigestsTellApart env s.files records) :
    (d.transactions = none → s = d) ∧
    ((∃ id hash, expected[id]? = some hash ∧
        hash ≠ (s.files[recommendationFilename id]?).map env.digests.sha256) →
      ∃ e, (applyRecommendationGraphTransaction env uuid expected records d).result = .error e ∧
        (applyRecommendationGraphTransaction env uuid expected records d).last = s) ∧
    ((applyRecommendationGraphTransaction env uuid expected records d).result = .ok () →
      Applied env records s.files
        (applyRecommendationGraphTransaction env uuid expected records d).last.files) ∧
    (∀ e, (applyRecommendationGraphTransaction env uuid expected records d).result = .error e →
      ¬ ManifestCommitted env (applyRecommendationGraphTransaction env uuid expected records d).last →
      (applyRecommendationGraphTransaction env uuid expected records d).last = s) ∧
    ((recoverTransactions env d).result = .ok () →
      ∀ before stopped, CrashesAt (applyRecommendationGraphTransaction env uuid expected records) s
        before stopped → (∀ t ∈ before ++ [stopped], ¬ ManifestCommitted env t) →
        stopped.files = s.files ∧ ((recoverTransactions env stopped).result = .ok () →
          (recoverTransactions env stopped).last = s)) := by
  have hclean : (recoverTransactions env d).result = .ok () → s = ⟨s.files, none⟩ := by
    intro hok
    rw [hs]
    exact recovered_disk hok
  -- the call is the recovery and then the rest on what the recovery left
  have hrest : ∀ u, (recoverTransactions env d).result = .ok u →
      (applyRecommendationGraphTransaction env uuid expected records d).result =
        (applyRecovered env uuid expected records s).result ∧
      (applyRecommendationGraphTransaction env uuid expected records d).last =
        (applyRecovered env uuid expected records s).last := by
    intro u hok
    rw [hs]
    exact bind_of_ok (f := fun _ => applyRecovered env uuid expected records) hok
  have hfailed : ∀ e, (recoverTransactions env d).result = .error e →
      (applyRecommendationGraphTransaction env uuid expected records d).result = .error e ∧
      (applyRecommendationGraphTransaction env uuid expected records d).last = s := by
    intro e herr
    rw [hs]
    exact bind_of_error (f := fun _ => applyRecovered env uuid expected records) herr
  refine ⟨?_, ?_, ?_, ?_, ?_⟩
  · intro hnone
    obtain ⟨files, transactions⟩ := d
    cases hnone
    exact hs
  · rintro ⟨id, hash, hget, hstale⟩
    cases hr : (recoverTransactions env d).result with
    | error e => exact ⟨e, hfailed e hr⟩
    | ok u =>
      obtain ⟨hresult, hlast⟩ := hrest u hr
      cases hplan : graphPlan env expected records s.files with
      | ok replacements =>
        obtain ⟨stored, hplanned⟩ := graphPlan_planned hplan
        exact absurd (hplanned.current id hash hget) hstale
      | error e =>
        have herr : ((Prog.check (fun d => graphPlan env expected records d.files) :
            StoreM (TextMap Replacement)) s).result = .error e := hplan
        obtain ⟨hrefused, hsame⟩ := bind_of_error (f := commitReplacements env uuid expected) herr
        exact ⟨e, hresult.trans hrefused, hlast.trans hsame⟩
  · intro hreturned
    cases hr : (recoverTransactions env d).result with
    | error e =>
      rw [(hfailed e hr).1] at hreturned
      cases hreturned
    | ok u =>
      obtain ⟨hresult, hlast⟩ := hrest u hr
      rw [hresult] at hreturned
      rw [hlast]
      rw [hclean hr] at hreturned ⊢
      exact (applyRecovered_meets hserde hdigest).ok () hreturned
  · intro e herror hnot
    cases hr : (recoverTransactions env d).result with
    | error e' => exact (hfailed e' hr).2
    | ok u =>
      obtain ⟨hresult, hlast⟩ := hrest u hr
      rw [hresult] at herror
      rw [hlast] at hnot ⊢
      have hmeets : Meets (applyRecovered env uuid expected records) ⟨s.files, none⟩ _ _ _ :=
        applyRecovered_meets hserde hdigest
      rw [← hclean hr] at hmeets
      exact (hmeets.error e herror).resolve_right (fun h => hnot h.committed)
  · intro hok before stopped hstop hnot
    have hs' := hclean hok
    have hbody : CrashesAt (applyRecovered env uuid expected records) ⟨s.files, none⟩ before stopped := by
      rw [hs'] at hstop
      obtain ⟨later, hlater⟩ := hstop
      exact ⟨later, hlater⟩
    rw [hs']
    exact applyRecovered_stopped hserde hbody hnot

/-- A hash is expected of a record that the empty store does not have. -/
theorem stale_expectation_refused :
    ∃ e, (applyRecommendationGraphTransaction Sample.store "0"
        ((∅ : TextMap (Option String)).insert "a" (some "0")) [Sample.record] ⟨∅, none⟩).result =
          .error e ∧
      (applyRecommendationGraphTransaction Sample.store "0"
        ((∅ : TextMap (Option String)).insert "a" (some "0")) [Sample.record] ⟨∅, none⟩).last =
          ⟨∅, none⟩ := by
  refine (graph_transaction_conservative Sample.store Sample.serde_lawful "0" _ [Sample.record]
    ⟨∅, none⟩ ⟨∅, none⟩ rfl ?_).2.1 ⟨"a", some "0", get_insert_self, ?_⟩
  · intro r _ bytes hfile
    rw [get_empty] at hfile
    cases hfile
  · rw [get_empty]
    simp

end Orkworksd.Taskmaster
