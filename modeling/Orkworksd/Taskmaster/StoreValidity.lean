import Mathlib.Tactic.DeriveCountable
import Mathlib.Data.Countable.Basic
import Mathlib.Logic.Equiv.List
import Mathlib.Data.Rat.Encodable
import Orkworksd.Taskmaster.StoreRecords

/- Validity of the recommendation store over every run of its operations.

   `Good` is a directory that both validators accept and in which every record is
   in the file of its id. `Settles` is the disk between two operations: the
   directory is good and whatever transaction directory is left, recovery takes
   away without touching a file. An operation on one record does what its counterpart on
   records does (`Refines.keeps`), and keeps the graph valid because its neighbours do not
   read what it changes (`Graph.Ok.rewritten`); a transaction validates what it published and
   rolls back otherwise, and recovery can finish the rollback when the ids are safe file
   names. -/
namespace Orkworksd.Taskmaster
open Lib Prog List TextMap

/-! ## Good directories -/

/-- Both validators accept the directory, and every record is in its own file. -/
structure Good (env : Env) (files : Files) : Prop where
  valid : validateGraph env files = .ok ()
  named : Named env files

/-- The disk between two operations. -/
def Settles (env : Env) (d : Disk) : Prop := Good env d.files ∧ Recoverable env d

section operations
variable {env : Env} {files : Files} {d : Disk} {records next : Records}

variable {change : Recommendation → Except StoreError Recommendation}

theorem Good.settles (h : Good env files) : Settles env ⟨files, none⟩ := ⟨h, .inl rfl⟩

theorem Settles.stands (h : Settles env d) :
    ∃ records, Stands env d records ∧ Graph.Ok env.digests (values records) := by
  obtain ⟨⟨hvalid, hnamed⟩, hrecoverable⟩ := h
  obtain ⟨l, hl, hgraph⟩ := validateGraph_ok.mp hvalid
  obtain ⟨stored, hstored, -⟩ := readAll_ok.mp hl
  have hshows : Shows env d.files (recordsById l) := by
    refine ⟨fun id r hr => (mem_recordsById hr).2, hnamed,
      fun name bytes => readAllStored_readable hstored, fun r => ?_⟩
    refine (mem_readAll hl r).symm.trans ⟨fun hr => ?_, fun hr => (mem_recordsById hr).1⟩
    exact get_foldl_of_mem (f := fun r : Recommendation => r.id) hgraph.ids hr
  exact ⟨_, ⟨hshows, hrecoverable⟩, hshows.graph_iff.mp hvalid⟩

theorem Stands.settles (h : Stands env d records) (hgraph : Graph.Ok env.digests (values records)) :
    Settles env d :=
  ⟨⟨h.shows.graph_iff.mpr hgraph, h.shows.named⟩, h.recoverable⟩

/-- Whatever the operation returns, the disk it leaves settles. -/
def Keeps {α : Type} (env : Env) (p : StoreM α) (d : Disk) : Prop :=
  Meets p d (fun _ => Settles env) (fun _ => Settles env) (fun _ => True)

theorem Refines.keeps {α β : Type} {p : StoreM α} {answers : α → Disk → β → Prop}
    {result : Except StoreError β} (h : Refines env p d records answers result)
    (hgraph : Graph.Ok env.digests (values records))
    (hnext : ∀ a d' b, result = .ok b → answers a d' b →
      ∃ next, Stands env d' next ∧ Graph.Ok env.digests (values next)) : Keeps env p d := by
  refine h.mono ?_ (fun _ _ hd => hd.2.settles hgraph) (fun _ _ => trivial)
  rintro a d' ⟨b, hok, hanswer⟩
  obtain ⟨next, hstands, hgraph'⟩ := hnext a d' b hok hanswer
  exact hstands.settles hgraph'

/-! ### Operations on one record -/

section record
variable {digests : Digests} {before after : Recommendation} {id : String} (hkeyed : Keyed records)
include hkeyed

/-- Putting back a record that keeps its place in the graph keeps the graph valid. -/
theorem insert_graph (hgraph : Graph.Ok digests (values records))
    (hbefore : records[id]? = some before) (hsame : SameNode before after) :
    Graph.Ok digests (values (records.insert after.id after)) := by
  have hid : after.id = id := hsame.id.trans (hkeyed id before hbefore)
  refine hgraph.rewritten (values_ids_nodup (hkeyed.insert after)) ?_ ?_
  · intro r hr
    obtain ⟨k, hk⟩ := mem_values.mp hr
    by_cases hkey : after.id = k
    · rw [← hkey, hid, hbefore, Option.some.injEq] at hk
      exact ⟨after, mem_values.mpr ⟨_, get_insert_self⟩, hk ▸ hsame⟩
    · exact ⟨r, mem_values.mpr ⟨k, (get_insert_ne hkey).trans hk⟩, .refl r⟩
  · intro r hr
    obtain ⟨k, hk⟩ := mem_values.mp hr
    rw [get_insert] at hk
    split at hk
    · cases hk
      exact ⟨before, mem_values.mpr ⟨id, hbefore⟩, hsame⟩
    · exact ⟨r, mem_values.mpr ⟨k, hk⟩, .refl r⟩

theorem updateResult_graph
    (hchange : ∀ before after, change before = .ok after → SameNode before after)
    (h : updateResult digests id change records = .ok next) : Graph.Ok digests (values next) := by
  obtain ⟨hread, ⟨-, rfl⟩ | ⟨r, -, hr, h⟩⟩ := onFound_ok.mp h
  · exact (readRecords_ok.mp hread).2
  · obtain ⟨r', hr', hput⟩ := bind_eq_ok.mp h
    obtain ⟨-, rfl⟩ := putResult_ok.mp hput
    exact insert_graph hkeyed (readRecords_ok.mp hread).2 hr (hchange r r' hr')

end record

theorem updateRecord_keeps (hserde : env.serde.Lawful) (h : Settles env d) (id : String)
    (hchange : ∀ before after, change before = .ok after → SameNode before after) :
    Keeps env (updateRecord env id change) d := by
  obtain ⟨records, hstands, hgraph⟩ := h.stands
  refine (updateRecord_refines hserde hstands (fun r r' hr => (hchange r r' hr).id)).keeps hgraph ?_
  exact fun _ _ next hok hd => ⟨next, hd, updateResult_graph hstands.shows.keyed hchange hok⟩

variable {before after : Recommendation}

theorem dismissChange_same {dismissedAt : String} {reason : Option String}
    (h : dismissChange dismissedAt reason before = .ok after) : SameNode before after := by
  obtain ⟨-, h⟩ := seq_eq_ok.mp h
  obtain ⟨hforbid, h⟩ := seq_eq_ok.mp h
  cases h
  have hstatus : before.status ≠ .rolledUp := by
    intro heq
    rw [forbid_ok, heq] at hforbid
    revert hforbid
    simp
  exact ⟨rfl, rfl, rfl, rfl, rfl, by simp [dismissedRecord, hstatus], by
    simp [dismissedRecord, activeParent]⟩

variable {targetSessionId startedAt : String}

theorem beginExecutionChange_same
    (h : beginExecutionChange targetSessionId startedAt before = .ok after) :
    SameNode before after := by
  obtain ⟨-, h⟩ := seq_eq_ok.mp h
  obtain ⟨hforbid, h⟩ := seq_eq_ok.mp h
  cases h
  have hstatus := startsFrom_status (forbid_ok.mp hforbid)
  exact ⟨rfl, rfl, rfl, rfl, rfl, by simp [hstatus], by simp [hstatus, activeParent]⟩

variable {id : String}

variable {mutation : CompletionMutationRequest}

theorem beginExecutionCheckedChange_same {digests : Digests} {approver : String}
    (h : beginExecutionCheckedChange digests id targetSessionId startedAt mutation approver before =
      .ok after) : SameNode before after := by
  obtain ⟨-, h⟩ := seq_eq_ok.mp h
  obtain ⟨hforbid, h⟩ := seq_eq_ok.mp h
  have hstatus := startsFrom_status (forbid_ok.mp hforbid)
  split at h
  · cases h
  · split at h
    · cases h
    · cases h
      exact ⟨rfl, rfl, rfl, rfl, rfl, by simp [hstatus], by simp [hstatus, activeParent]⟩

variable {completedAt : String}

theorem completeExecutionChange_same (h : completeExecutionChange completedAt before = .ok after) :
    SameNode before after := by
  obtain ⟨hforbid, h⟩ := seq_eq_ok.mp h
  cases h
  have hstatus := startsFrom_status (forbid_ok.mp hforbid)
  exact ⟨rfl, rfl, rfl, rfl, rfl, by simp [hstatus], by simp [activeParent]⟩

theorem completeAcceptedChange_same (h : completeAcceptedChange completedAt before = .ok after) :
    SameNode before after := by
  obtain ⟨-, h⟩ := seq_eq_ok.mp h
  obtain ⟨hforbid, h⟩ := seq_eq_ok.mp h
  cases h
  have hstatus := startsFrom_status (forbid_ok.mp hforbid)
  exact ⟨rfl, rfl, rfl, rfl, rfl, by simp [hstatus], by simp [activeParent]⟩

theorem completeAcceptedCheckedChange_same
    (h : completeAcceptedCheckedChange id completedAt mutation before = .ok (some after)) :
    SameNode before after := by
  obtain ⟨-, h⟩ := seq_eq_ok.mp h
  split at h
  · cases h
  · rename_i packet _
    split at h
    · cases h
    split at h
    · split at h <;> cases h
    split at h
    · cases h
    split at h
    · cases h
    · rename_i hstart
      cases h
      simp only [Bool.or_eq_true, not_or, Bool.not_eq_true] at hstart
      have hstatus := startsFrom_status hstart.1
      exact ⟨rfl, rfl, rfl, rfl, rfl, by simp [hstatus], by simp [activeParent]⟩

theorem cancelExecutionChange_same {cancelledAt : String}
    (h : cancelExecutionChange cancelledAt before = .ok after) : SameNode before after := by
  obtain ⟨hforbid, h⟩ := seq_eq_ok.mp h
  cases h
  have hstatus := startsFrom_status (forbid_ok.mp hforbid)
  exact ⟨rfl, rfl, rfl, rfl, rfl, by simp [reproposed, hstatus], by simp [hstatus, activeParent]⟩

theorem completeAcceptedChecked_keeps (hserde : env.serde.Lawful) (h : Settles env d)
    (id completedAt : String) (mutation : CompletionMutationRequest) :
    Keeps env (completeAcceptedChecked env id completedAt mutation) d := by
  obtain ⟨records, hstands, hgraph⟩ := h.stands
  refine (completeAcceptedChecked_refines hserde hstands completedAt mutation).keeps hgraph ?_
  rintro a d' ⟨answer, next⟩ hok ⟨-, hd⟩
  refine ⟨next, hd, ?_⟩
  obtain ⟨hread, ⟨-, habsent⟩ | ⟨r, -, hr, hok⟩⟩ := onFound_ok.mp (seq_eq_ok.mp hok).2
  · cases habsent
    exact hgraph
  · obtain ⟨changed, hchanged, hok⟩ := bind_eq_ok.mp hok
    cases changed with
    | none =>
      cases hok
      exact hgraph
    | some r' =>
      obtain ⟨stored, hput, hok⟩ := bind_eq_ok.mp hok
      cases hok
      obtain ⟨-, rfl⟩ := putResult_ok.mp hput
      exact insert_graph hstands.shows.keyed hgraph hr (completeAcceptedCheckedChange_same hchanged)

theorem cancelExecution_keeps (hserde : env.serde.Lawful) (h : Settles env d)
    (id cancelledAt : String) : Keeps env (cancelExecution env id cancelledAt) d := by
  obtain ⟨records, hstands, hgraph⟩ := h.stands
  have hkeyed := hstands.shows.keyed
  refine (cancelExecution_refines hserde hstands cancelledAt).keeps hgraph ?_
  intro a d' next hok hd
  refine ⟨next, hd, ?_⟩
  obtain ⟨hread, ⟨-, rfl⟩ | ⟨r, -, hr, hok⟩⟩ := onFound_ok.mp hok
  · exact hgraph
  · obtain ⟨r', hr', hok⟩ := bind_eq_ok.mp hok
    obtain ⟨stored, hput, hok⟩ := bind_eq_ok.mp hok
    obtain ⟨-, rfl⟩ := putResult_ok.mp hput
    have hfirst := insert_graph hkeyed hgraph hr (cancelExecutionChange_same hr')
    split at hok
    · obtain ⟨-, rfl⟩ := putResult_ok.mp hok
      -- the reservation is rolled back first, so the record is proposed here
      have hproposed : r'.status = .proposed := by
        obtain ⟨-, hr'⟩ := seq_eq_ok.mp hr'
        cases hr'
        rfl
      have hsame : SameNode r' { r' with status := .superseded } :=
        ⟨rfl, rfl, rfl, rfl, rfl, by simp [hproposed], by simp [activeParent]⟩
      exact insert_graph (hkeyed.insert r') hfirst get_insert_self hsame
    · cases hok
      exact hfirst

/-! ### Operations on the graph -/

/-- Every replacement removes its file or writes a record under the record's id. -/
def Faithful (env : Env) (replacements : TextMap Replacement) : Prop :=
  ∀ (id : String) (replacement : Replacement), replacements[id]? = some replacement →
    replacement.new = none ∨
      ∃ record, replacement.new = some (env.serde.encode record) ∧ record.id = id

theorem after_named {uuid : String} {replacements : TextMap Replacement}
    (hserde : env.serde.Lawful) (hnamed : Named env files)
    (hjob : (commitJob uuid files replacements).Sound env)
    (hfaithful : Faithful env replacements) :
    Named env ((commitJob uuid files replacements).after env) := by
  intro name bytes r hfile hjson hread
  by_cases h : ∀ item ∈ (commitJob uuid files replacements).items,
      recommendationFilename item.1 ≠ name
  · rw [Job.after_other h] at hfile
    exact hnamed name bytes r hfile hjson hread
  · push Not at h
    obtain ⟨item, hitem, rfl⟩ := h
    rw [Job.after_item hjob.ids hitem] at hfile
    rcases item.2.landed_cases env with hold | hnew
    · rw [hold, ← hjob.old item hitem] at hfile
      exact hnamed _ bytes r hfile hjson hread
    · rw [hnew] at hfile
      rcases hfaithful item.1 item.2 (mem_toList.mp hitem) with hnone | ⟨record, hrec, hid⟩
      · rw [hnone] at hfile
        cases hfile
      · rw [hrec, Option.some.injEq] at hfile
        subst hfile
        rw [readRecord_encode hserde hread, hid]

/-- A commit that returned changed nothing or published a valid graph. -/
def Committed (env : Env) (uuid : String) (replacements : TextMap Replacement) (files : Files)
    (d : Disk) : Prop :=
  replacements.isEmpty = true ∧ d = ⟨files, none⟩ ∨
    (commitJob uuid files replacements).Sound env ∧
      d = ⟨(commitJob uuid files replacements).after env, some ∅⟩ ∧
      (commitJob uuid files replacements).NewValid env

section commit
variable {expected : TextMap (Option String)} {replacements : TextMap Replacement}

/-- A commit that fails was refused, or rolled back as the graph it published is not valid. -/
theorem commit_meets (hserde : env.serde.Lawful) (hvalid : validateGraph env files = .ok ())
    (uuid : String) :
    Meets (commitReplacements env uuid expected replacements) ⟨files, none⟩
      (fun _ d => verifyCommit env expected replacements files = .ok () ∧
        Committed env uuid replacements files d)
      (fun e d => verifyCommit env expected replacements files = .error e ∧ d = ⟨files, none⟩ ∨
        verifyCommit env expected replacements files = .ok () ∧
          (commitJob uuid files replacements).Sound env ∧
          ¬ (commitJob uuid files replacements).NewValid env ∧
          ∃ X, d = (commitJob uuid files replacements).disk files X ∧
            Held env (commitJob uuid files replacements) true files X) (fun _ => True) := by
  refine Meets.bind' (Meets.check' ?_ (fun _ he => .inl ⟨he, rfl⟩))
  intro _ hverify
  refine Meets.ite' (fun hempty => Meets.pure' ⟨hverify, .inl ⟨hempty, rfl⟩⟩) ?_
  intro _
  have hjob := commitJob_sound uuid (fun _ => hserde.decodeManifest_encode _) hvalid hverify
  refine Meets.bind' ((stageTransaction_meets hjob).mono ?_ (fun _ _ h => h) (fun _ _ => trivial))
  rintro _ _ ⟨X, rfl, hall, hready⟩
  refine (publishTransaction_meets hjob hall hready).mono ?_ ?_ (fun _ _ => trivial)
  · rintro _ _ ⟨rfl, hnew⟩
    exact ⟨hverify, .inr ⟨hjob, rfl, hnew⟩⟩
  · rintro _ _ ⟨hheld, hinvalid⟩
    exact .inr ⟨hverify, hjob, hinvalid, hheld⟩

theorem verifyCommit_old (h : verifyCommit env expected replacements files = .ok ()) :
    ∀ id replacement, replacements[id]? = some replacement →
      files[recommendationFilename id]? = replacement.old := by
  unfold verifyCommit at h
  obtain ⟨current, -, h⟩ := bind_eq_ok.mp h
  intro id replacement hget
  have hitem := mem_toList (p := (id, replacement)).mpr hget
  exact verifyReplacements_ok.mp (seq_eq_ok.mp h).2 (id, replacement) hitem

theorem commit_replaced {uuid : String} (hjob : (commitJob uuid files replacements).Sound env)
    (hverify : verifyCommit env expected replacements files = .ok ())
    (hlanded : ∀ (id : String) replacement, replacements[id]? = some replacement →
      replacement.landed env = replacement.new) :
    Replaced replacements files ((commitJob uuid files replacements).after env) := by
  refine ⟨verifyCommit_old hverify, ?_, ?_⟩
  · intro id replacement hget
    have hitem := mem_toList (p := (id, replacement)).mpr hget
    exact (Job.after_item hjob.ids hitem).trans (hlanded id replacement hget)
  · intro name hname
    refine Job.after_other ?_
    intro item hitem
    exact hname item.1 (TextMap.mem_keys.mpr ⟨item.2, mem_toList.mp hitem⟩)

theorem Committed.replaced {uuid : String}
    (h : Committed env uuid replacements files d) (hvalid : validateGraph env files = .ok ())
    (hverify : verifyCommit env expected replacements files = .ok ())
    (hlanded : ∀ (id : String) replacement, replacements[id]? = some replacement →
      replacement.landed env = replacement.new) :
    Replaced replacements files d.files ∧ validateGraph env d.files = .ok () := by
  obtain ⟨hempty, rfl⟩ | ⟨hjob, rfl, hnew⟩ := h
  · -- no file changes
    refine ⟨⟨verifyCommit_old hverify, ?_, fun _ _ => rfl⟩, hvalid⟩
    intro id replacement hget
    rw [Std.ExtTreeMap.isEmpty_iff.mp hempty, get_empty] at hget
    cases hget
  · exact ⟨commit_replaced hjob hverify hlanded, hnew⟩

/-- A commit of such replacements keeps the store valid, provided that the graph
it publishes is valid or that every replaced id is a safe file name. -/
theorem commit_keeps (hserde : env.serde.Lawful) (hgood : Good env files) (uuid : String)
    (hfaithful : Faithful env replacements)
    (hsafe : verifyCommit env expected replacements files = .ok () →
      (∀ id ∈ replacements.keys, validId id = true) ∨
        (commitJob uuid files replacements).NewValid env) :
    Keeps env (commitReplacements env uuid expected replacements) ⟨files, none⟩ := by
  refine (commit_meets hserde hgood.valid uuid).mono ?_ ?_ (fun _ _ => trivial)
  · rintro _ _ ⟨-, ⟨-, rfl⟩ | ⟨hjob, rfl, hnew⟩⟩
    · exact hgood.settles
    · exact ⟨⟨hnew, after_named hserde hgood.named hjob hfaithful⟩, .inr (.inl rfl)⟩
  · rintro _ _ (⟨-, rfl⟩ | ⟨hverify, hjob, hinvalid, X, rfl, hheld⟩)
    · exact hgood.settles
    refine ⟨hgood, .inr (.inr ⟨_, X, hjob, rfl, hheld, hinvalid, ?_⟩)⟩
    rcases hsafe hverify with hids | hnew
    · intro item hitem
      refine hids item.1 ?_
      rw [← toList_keys]
      exact mem_map_of_mem hitem
    · exact absurd hnew hinvalid

theorem verifyCommit_ids (hverify : verifyCommit env expected replacements files = .ok ())
    (hexpected : ∀ id ∈ replacements.keys, id ∈ expected.keys) :
    ∀ id ∈ replacements.keys, validId id = true := by
  intro id hid
  obtain ⟨current, -, hverify⟩ := bind_eq_ok.mp hverify
  obtain ⟨hexp, -⟩ := seq_eq_ok.mp hverify
  have hmem := hexpected id hid
  rw [← toList_keys] at hmem
  obtain ⟨item, hitem, rfl⟩ := mem_map.mp hmem
  exact ((verifyExpected_ok.mp hexp).1 item hitem).1

/-- The same for a commit that names every replaced id among the expected ones,
which `verify_expected` checks. -/
theorem commit_keeps_expected (hserde : env.serde.Lawful) (hgood : Good env files) (uuid : String)
    (hfaithful : Faithful env replacements)
    (hexpected : ∀ id ∈ replacements.keys, id ∈ expected.keys) :
    Keeps env (commitReplacements env uuid expected replacements) ⟨files, none⟩ :=
  commit_keeps hserde hgood uuid hfaithful (fun hverify => .inl (verifyCommit_ids hverify hexpected))

end commit

variable {replacement : CompletionPacket} {updatedAt : String} {expectedRevision : Nat}

theorem replacePacketPlan_some {next : Recommendation}
    (h : replacePacketPlan env id expectedRevision replacement updatedAt files =
      .ok (some (next, bytes))) :
    ∃ stored current, readAllStoredById env files = .ok stored ∧ stored[id]? = some (current, bytes) ∧
      replacePacketChange id expectedRevision replacement updatedAt current = .ok next ∧
      validateRecommendation env.digests next = .ok () ∧
      validateGraphRecords env.digests
        (values ((stored.map (fun _ record => record.1)).insert id next)) = .ok () := by
  obtain ⟨stored, hstored, h⟩ := bind_eq_ok.mp h
  cases hget : stored[id]? with
  | none =>
    simp only [hget] at h
    cases h
  | some record =>
    obtain ⟨current, bytes'⟩ := record
    simp only [hget] at h
    obtain ⟨next', hchange, h⟩ := bind_eq_ok.mp h
    obtain ⟨hvalid, h⟩ := seq_eq_ok.mp h
    obtain ⟨hgraph, h⟩ := seq_eq_ok.mp h
    cases h
    exact ⟨stored, current, hstored, hget, hchange, hvalid, hgraph⟩

theorem replaceCompletionPacket_keeps (hserde : env.serde.Lawful) (h : Settles env d)
    (uuid id : String) (expectedRevision : Nat) (replacement : CompletionPacket)
    (updatedAt : String) :
    Keeps env (replaceCompletionPacket env uuid id expectedRevision replacement updatedAt) d := by
  refine recover_then h.2 (Meets.bind' (Meets.check' ?_ (fun _ _ => h.1.settles)))
  intro planned hplanned
  cases planned with
  | none => exact Meets.pure' h.1.settles
  | some plan =>
    obtain ⟨next, bytes⟩ := plan
    obtain ⟨stored, current, hstored, hget, hchange, -⟩ := replacePacketPlan_some hplanned
    have hid := (replacePacketChange_id hchange).trans (readAllStoredById_get hstored hget).2
    refine Meets.bind' (Meets.mono (commit_keeps_expected hserde h.1 uuid ?_ ?_)
      (fun _ _ hd => Meets.pure' hd) (fun _ _ hd => hd) (fun _ hd => hd))
    · intro id' rep hrep
      rw [get_insert] at hrep
      split at hrep
      · rename_i heq
        cases hrep
        exact .inr ⟨next, rfl, hid.trans heq⟩
      · rw [get_empty] at hrep
        cases hrep
    · intro id' hid'
      rw [keys_singleton] at hid' ⊢
      exact hid'

theorem orphanPlan_ok {live protectedIds : String → Bool} {recoveredAt : String} {orphans : Stored}
    (h : orphanPlan env live protectedIds recoveredAt files = .ok orphans) :
    ∃ stored, readAllStoredById env files = .ok stored ∧
      orphans = stored.filter (fun id record => orphaned live protectedIds id record.1) ∧
      validateEach env.digests
        (values (orphans.map (fun _ record => reproposed record.1 recoveredAt))) = .ok () ∧
      (¬ orphans.isEmpty = true → validateGraphRecords env.digests
        (values (stored.map (fun id record => if orphaned live protectedIds id record.1 then
          reproposed record.1 recoveredAt else record.1))) = .ok ()) := by
  obtain ⟨stored, hstored, h⟩ := bind_eq_ok.mp h
  obtain ⟨heach, h⟩ := seq_eq_ok.mp h
  refine ⟨stored, hstored, ?_⟩
  split at h
  · next hempty =>
    cases h
    exact ⟨rfl, heach, fun hsome => absurd hempty hsome⟩
  · obtain ⟨hgraph, h⟩ := seq_eq_ok.mp h
    cases h
    exact ⟨rfl, heach, fun _ => hgraph⟩

theorem mem_keys_map {β γ : Type} {m : TextMap β} {f : String → β → γ} :
    id ∈ (m.map f).keys ↔ id ∈ m.keys := by
  rw [TextMap.mem_keys, TextMap.mem_keys]
  simp only [get_map, Option.map_eq_some_iff]
  constructor
  · rintro ⟨_, v, hv, -⟩
    exact ⟨v, hv⟩
  · rintro ⟨v, hv⟩
    exact ⟨_, v, hv, rfl⟩

theorem recoverOrphanedExecutions_keeps (hserde : env.serde.Lawful) (h : Settles env d)
    (uuid : String) (live protectedIds : String → Bool) (recoveredAt : String) :
    Keeps env (recoverOrphanedExecutions env uuid live protectedIds recoveredAt) d := by
  refine recover_then h.2 (Meets.bind' (Meets.check' ?_ (fun _ _ => h.1.settles)))
  intro orphans horphans
  refine Meets.ite' (fun _ => Meets.pure' h.1.settles) ?_
  intro _
  refine Meets.bind' (Meets.mono (commit_keeps_expected hserde h.1 uuid ?_ ?_)
    (fun _ _ hd => Meets.pure' hd) (fun _ _ hd => hd) (fun _ hd => hd))
  · intro id rep hrep
    rw [get_map, Option.map_eq_some_iff] at hrep
    obtain ⟨record, hget, rfl⟩ := hrep
    obtain ⟨stored, hstored, rfl, -⟩ := orphanPlan_ok horphans
    rw [get_filter, Option.filter_eq_some_iff] at hget
    exact .inr ⟨_, rfl, (readAllStoredById_get hstored hget.1).2⟩
  · intro id hid
    rw [mem_keys_map] at hid
    exact mem_keys_map.mpr hid

theorem deleteSelected_keeps (hserde : env.serde.Lawful) (h : Settles env d) (uuid : String)
    (select : Recommendation → Bool) : Keeps env (deleteSelected env uuid select) d := by
  refine recover_then h.2 (Meets.bind' (Meets.check' ?_ (fun _ _ => h.1.settles)))
  intro recommendations _
  refine Meets.bind' (Meets.check' ?_ (fun _ _ => h.1.settles))
  intro stored _
  refine commit_keeps_expected hserde h.1 uuid ?_ ?_
  · intro id rep hrep
    rw [get_map, Option.map_eq_some_iff] at hrep
    obtain ⟨record, -, rfl⟩ := hrep
    exact .inl rfl
  · intro id hid
    rw [mem_keys_map] at hid
    exact mem_keys_map.mpr hid

/-! ### Applying an evaluated graph -/

theorem graphReplacements_faithful (stored : Stored) (records : List Recommendation) :
    Faithful env (graphReplacements env stored (recordsById records)) := by
  intro id replacement h
  obtain ⟨r, hr, hnew⟩ := graphReplacements_get h
  exact .inr ⟨r, hnew, (mem_recordsById hr).2⟩

/-- Both validators accept the records that will be read back: a record without an
id goes to a file that is not read. -/
def Accepted (digests : Digests) (records : List Recommendation) : Prop :=
  (∀ r ∈ records, r.id ≠ "" → validateRecommendation digests r = .ok ()) ∧
    validateGraphRecords digests (records.filter (fun r => r.id != "")) = .ok ()

section apply
variable {uuid : String} {expected : TextMap (Option String)} {records : List Recommendation}
  {replacements : TextMap Replacement}

theorem published_valid (hserde : env.serde.Lawful) (hgood : Good env files) {stored : Stored}
    (hplanned : Planned env expected records files stored replacements)
    (hjob : (commitJob uuid files replacements).Sound env)
    (hverify : verifyCommit env expected replacements files = .ok ())
    (haccepted : Accepted env.digests records) (hdigest : DigestsDiffer env replacements) :
    (commitJob uuid files replacements).NewValid env := by
  have hfiles := commit_replaced hjob hverify (fun _ _ => landed_of_digestsDiffer hdigest)
  have hreadable : ∀ r ∈ records, r.id ≠ "" →
      readRecord env (env.serde.encode r) = .ok r := by
    intro r hr hid
    exact readRecord_ok.mpr ⟨hserde.decode_encode r, haccepted.1 r hr hid⟩
  obtain ⟨all, hall⟩ : ∃ all,
      readAllStored env ((commitJob uuid files replacements).after env) = .ok all := by
    refine readAllStored_total ?_
    intro name bytes hfile hjson
    obtain ⟨r, hr, hid, -, rfl⟩ := hplanned.name hserde hgood.named hfiles hfile hjson
    exact ⟨r, hreadable r hr hid⟩
  have hfaithful : Faithful env replacements :=
    hplanned.planned ▸ graphReplacements_faithful stored records
  have hread := readAll_ok.mpr ⟨all, hall, rfl⟩
  refine validateGraph_ok.mpr ⟨_, hread, ?_⟩
  refine (validateGraphRecords_ok_iff.mp haccepted.2).congr
    (readAll_ids_nodup (after_named hserde hgood.named hjob hfaithful) hread) ?_
  intro r
  rw [mem_filter, bne_iff_ne, mem_readAll hread]
  constructor
  · rintro ⟨hr, hid⟩
    exact ⟨_, _, hplanned.file hserde hgood.named hfiles hr, (isJsonFile_filename _).mpr hid,
      hreadable r hr hid⟩
  · rintro ⟨bytes, name, hfile, hjson, hrecord⟩
    obtain ⟨r', hr', hid, -, rfl⟩ := hplanned.name hserde hgood.named hfiles hfile hjson
    rw [hreadable r' hr' hid, Except.ok.injEq] at hrecord
    exact hrecord ▸ ⟨hr', hid⟩

/-- The call is refused before it writes, or its ids are safe file names, or both
validators accept the graph it publishes. -/
def ApplySafe (env : Env) (expected : TextMap (Option String)) (records : List Recommendation)
    (files : Files) : Prop :=
  ∀ replacements, graphPlan env expected records files = .ok replacements →
    (∀ r ∈ records, validId r.id = true) ∨
      (Accepted env.digests records ∧ DigestsDiffer env replacements)

theorem apply_keeps (hserde : env.serde.Lawful) (h : Settles env d) (uuid : String)
    (hsafe : ApplySafe env expected records d.files) :
    Keeps env (applyRecommendationGraphTransaction env uuid expected records) d := by
  refine recover_then h.2 (Meets.bind' (Meets.check' ?_ (fun _ _ => h.1.settles)))
  intro replacements hplan
  change graphPlan env expected records d.files = .ok replacements at hplan
  obtain ⟨stored, hplanned⟩ := graphPlan_planned hplan
  have hfaithful : Faithful env replacements :=
    hplanned.planned ▸ graphReplacements_faithful stored records
  refine commit_keeps hserde h.1 uuid hfaithful ?_
  intro hverify
  rcases hsafe replacements hplan with hids | ⟨haccepted, hdigest⟩
  · refine .inl ?_
    intro id hid
    obtain ⟨replacement, hget⟩ := TextMap.mem_keys.mp hid
    obtain ⟨r, hr, rfl, -⟩ := hplanned.replaced hget
    exact hids r hr
  · have hjob := commitJob_sound uuid (fun _ => hserde.decodeManifest_encode _) h.1.valid hverify
    exact .inr (published_valid hserde h.1 hplanned hjob hverify haccepted hdigest)

end apply

/-! ### Reopening and listing -/

theorem legacyRollupId_json (h : legacyRollupId name = some id) : isJsonFile name = true := by
  unfold legacyRollupId at h
  split at h
  · rename_i hname
    rw [Bool.and_eq_true, List.isPrefixOf_iff_prefix, isSuffixOf_iff_suffix] at hname
    unfold isJsonFile
    rw [Bool.and_eq_true, isSuffixOf_iff_suffix, bne_iff_ne]
    refine ⟨hname.2.trans (drop_suffix _ _), ?_⟩
    rintro rfl
    exact absurd hname.1 (by decide)
  · cases h

theorem Good.no_legacy (h : Good env files) (hname : name ∈ files.keys) :
    legacyRollupId name = none := by
  cases hlegacy : legacyRollupId name with
  | none => rfl
  | some id =>
    obtain ⟨bytes, hfile⟩ := TextMap.mem_keys.mp hname
    have hjson := legacyRollupId_json hlegacy
    obtain ⟨records, hrecords, -⟩ := validateGraph_ok.mp h.valid
    obtain ⟨stored, hstored, -⟩ := readAll_ok.mp hrecords
    obtain ⟨r, hread⟩ := readAllStored_readable hstored hfile hjson
    rw [h.named name bytes r hfile hjson hread, legacyRollupId_filename] at hlegacy
    cases hlegacy

theorem migrate_settles (h : Good env d.files) {err : StoreError → Disk → Prop} :
    Meets migrateLegacyRollupFilenames d (fun _ d' => d' = d) err (fun _ => True) := by
  refine Meets.bind' (Meets.look' ?_)
  let inv : List String → Disk → Prop := fun rest d' =>
    d' = d ∧ ∀ name ∈ rest, legacyRollupId name = none
  have hloop : Meets (forEach migrateLegacyFile d.files.keys) d (fun _ d' => inv [] d') err
      (fun _ => True) := by
    refine Meets.forEach' ?_ d.files.keys ⟨rfl, fun name hname => h.no_legacy hname⟩
    rintro name rest d' ⟨rfl, hrest⟩
    unfold migrateLegacyFile
    rw [hrest name mem_cons_self]
    exact Meets.pure' ⟨rfl, fun n hn => hrest n (mem_cons_of_mem _ hn)⟩
  exact hloop.mono (fun _ _ hd => hd.1) (fun _ _ hd => hd) (fun _ hd => hd)

theorem returns_of_meets {α : Type} {p : StoreM α} {post : α → Disk → Prop} {crash : Disk → Prop}
    (h : Meets p d post (fun _ _ => False) crash) : ∃ a, (p d).result = .ok a ∧ post a (p d).last := by
  cases hr : (p d).result with
  | ok a => exact ⟨a, rfl, h.ok a hr⟩
  | error e => exact (h.error e hr).elim

theorem openStore_meets (h : Settles env d) :
    Meets (openStore env) d (fun _ _ => True) (fun _ _ => False) (fun _ => True) := by
  refine Meets.seq (migrate_settles h.1) ?_
  rintro _ _ rfl
  refine Meets.seq (recover_meets h.2) ?_
  rintro _ _ rfl
  refine Meets.check' (fun _ _ => trivial) ?_
  intro e he
  exact absurd (h.1.valid.symm.trans he) (by simp)

theorem list_meets (h : Settles env d) {records : List Recommendation}
    (hrecords : readAll env d.files = .ok records) :
    Meets (list env) d (fun listed _ => listed = sortBy listedBefore records)
      (fun _ _ => False) (fun _ => True) := by
  have hlisted : listRecords env d.files = .ok (sortBy listedBefore records) := by
    have hgraph := h.1.valid
    obtain ⟨records', hrecords', hgraph⟩ := bind_eq_ok.mp hgraph
    rw [hrecords, Except.ok.injEq] at hrecords'
    subst hrecords'
    exact bind_eq_ok.mpr ⟨records, hrecords, seq_eq_ok.mpr ⟨hgraph, rfl⟩⟩
  refine Meets.seq (recover_meets h.2) ?_
  rintro _ d' rfl
  exact Meets.check_ok hlisted rfl

end operations

/-! ## Runs -/

/-- A call of an operation that writes; the text named `uuid` is the fresh name of
its transaction. -/
inductive Call where
  | dismiss (id dismissedAt : String) (reason : Option String)
  | beginExecution (id targetSessionId startedAt : String)
  | beginExecutionChecked (id targetSessionId startedAt : String)
      (mutation : CompletionMutationRequest) (approver : String)
  | completeExecution (id completedAt : String)
  | completeAccepted (id completedAt : String)
  | completeAcceptedChecked (id completedAt : String) (mutation : CompletionMutationRequest)
  | cancelExecution (id cancelledAt : String)
  | replaceCompletionPacket (uuid id : String) (expectedRevision : Nat)
      (replacement : CompletionPacket) (updatedAt : String)
  | recoverOrphanedExecutions (uuid : String) (live protectedIds : String → Bool)
      (recoveredAt : String)
  | deleteGraphRecords (uuid : String) (select : Recommendation → Bool)
  | applyRecommendationGraphTransaction (uuid : String) (expected : TextMap (Option String))
      (records : List Recommendation)

/-- The disk a call leaves, whether it returns or fails. -/
def Call.perform (env : Env) (d : Disk) : Call → Disk
  | .dismiss id dismissedAt reason => (Taskmaster.dismiss env id dismissedAt reason d).last
  | .beginExecution id session startedAt => (Taskmaster.beginExecution env id session startedAt d).last
  | .beginExecutionChecked id session startedAt mutation approver =>
    (Taskmaster.beginExecutionChecked env id session startedAt mutation approver d).last
  | .completeExecution id completedAt => (Taskmaster.completeExecution env id completedAt d).last
  | .completeAccepted id completedAt => (Taskmaster.completeAccepted env id completedAt d).last
  | .completeAcceptedChecked id completedAt mutation =>
    (Taskmaster.completeAcceptedChecked env id completedAt mutation d).last
  | .cancelExecution id cancelledAt => (Taskmaster.cancelExecution env id cancelledAt d).last
  | .replaceCompletionPacket uuid id expectedRevision replacement updatedAt =>
    (Taskmaster.replaceCompletionPacket env uuid id expectedRevision replacement updatedAt d).last
  | .recoverOrphanedExecutions uuid live protectedIds recoveredAt =>
    (Taskmaster.recoverOrphanedExecutions env uuid live protectedIds recoveredAt d).last
  | .deleteGraphRecords uuid select => (deleteSelected env uuid select d).last
  | .applyRecommendationGraphTransaction uuid expected records =>
    (Taskmaster.applyRecommendationGraphTransaction env uuid expected records d).last

/-- Only the records of an evaluated graph come from outside the store. -/
def Call.Safe (env : Env) (d : Disk) : Call → Prop
  | .applyRecommendationGraphTransaction _ expected records =>
    ApplySafe env expected records d.files
  | _ => True

/-- One call of a run, and one that meets its condition. -/
def Calls (env : Env) (d : Disk) (call : Call) (d' : Disk) : Prop := d' = call.perform env d

def SafeCalls (env : Env) (d : Disk) (call : Call) (d' : Disk) : Prop :=
  call.Safe env d ∧ Calls env d call d'

/-- Both validators accept the records of the directory, and opening and listing
the store succeed. -/
structure Usable (env : Env) (d : Disk) : Prop where
  accepted : ∃ records, readAll env d.files = .ok records ∧
    (∀ r ∈ records, validateRecommendation env.digests r = .ok ()) ∧
    validateGraphRecords env.digests records = .ok ()
  opens : (openStore env d).result = .ok ()
  lists : ∃ records, (list env d).result = .ok records

theorem Settles.usable {env : Env} {d : Disk} (h : Settles env d) : Usable env d := by
  obtain ⟨records, hrecords, hgraph⟩ := bind_eq_ok.mp h.1.valid
  refine ⟨⟨records, hrecords, ?_, hgraph⟩, ?_, ?_⟩
  · intro r hr
    obtain ⟨bytes, name, -, -, hread⟩ := (mem_readAll hrecords r).mp hr
    exact (readRecord_ok.mp hread).2
  · obtain ⟨_, hok, -⟩ := returns_of_meets (openStore_meets h)
    exact hok
  · obtain ⟨listed, hok, -⟩ := returns_of_meets (list_meets h hrecords)
    exact ⟨listed, hok⟩

theorem Keeps.settles {α : Type} {env : Env} {p : StoreM α} {d : Disk} (h : Keeps env p d) :
    Settles env (p d).last := by
  cases hr : (p d).result with
  | ok a => exact h.ok a hr
  | error e => exact h.error e hr

theorem perform_settles {env : Env} (hserde : env.serde.Lawful) {d : Disk} (h : Settles env d)
    (call : Call) (hsafe : call.Safe env d) : Settles env (call.perform env d) := by
  cases call with
  | dismiss id dismissedAt reason =>
    exact (updateRecord_keeps hserde h id (fun _ _ => dismissChange_same)).settles
  | beginExecution id session startedAt =>
    exact (updateRecord_keeps hserde h id (fun _ _ => beginExecutionChange_same)).settles
  | beginExecutionChecked id session startedAt mutation approver =>
    refine Keeps.settles (Meets.bind' (Meets.check' (fun _ _ => ?_) (fun _ _ => h)))
    exact updateRecord_keeps hserde h id (fun _ _ => beginExecutionCheckedChange_same)
  | completeExecution id completedAt =>
    exact (updateRecord_keeps hserde h id (fun _ _ => completeExecutionChange_same)).settles
  | completeAccepted id completedAt =>
    exact (updateRecord_keeps hserde h id (fun _ _ => completeAcceptedChange_same)).settles
  | completeAcceptedChecked id completedAt mutation =>
    exact (completeAcceptedChecked_keeps hserde h id completedAt mutation).settles
  | cancelExecution id cancelledAt => exact (cancelExecution_keeps hserde h id cancelledAt).settles
  | replaceCompletionPacket uuid id expectedRevision replacement updatedAt =>
    exact (replaceCompletionPacket_keeps hserde h uuid id expectedRevision replacement
      updatedAt).settles
  | recoverOrphanedExecutions uuid live protectedIds recoveredAt =>
    exact (recoverOrphanedExecutions_keeps hserde h uuid live protectedIds recoveredAt).settles
  | deleteGraphRecords uuid select => exact (deleteSelected_keeps hserde h uuid select).settles
  | applyRecommendationGraphTransaction uuid expected records =>
    exact (apply_keeps hserde h uuid hsafe).settles

/-- In every run whose evaluated graphs have safe ids, or pass both validators, or
are refused, the store stays valid and can be reopened and listed. -/
theorem store_stays_usable (env : Env) (hserde : env.serde.Lawful) (files : Files)
    (hvalid : validateGraph env files = .ok ()) (hnamed : Named env files) (calls : List Call)
    (d : Disk) (hrun : Run (SafeCalls env) ⟨files, none⟩ calls d) : Usable env d := by
  have hsettles : Settles env d := by
    refine hrun.invariant (Settles env) (Good.settles ⟨hvalid, hnamed⟩) ?_
    rintro s call t hs ⟨hsafe, rfl⟩
    exact perform_settles hserde hs call hsafe
  exact hsettles.usable

/-! ### A graph that cannot be rolled back -/

/-- A graph that passes the checks before the commit, has an id that is no safe
file name and is not valid once it is published leaves a store that no longer
opens: its rollback is refused by every later recovery. -/
theorem apply_sticks {env : Env} (hserde : env.serde.Lawful) {files : Files}
    (hgood : Good env files) (uuid : String) {expected : TextMap (Option String)}
    {records : List Recommendation} {replacements : TextMap Replacement}
    (hplan : graphPlan env expected records files = .ok replacements)
    (hverify : verifyCommit env expected replacements files = .ok ())
    (hsome : replacements.isEmpty = false)
    (hinvalid : ¬ (commitJob uuid files replacements).NewValid env) {id : String}
    (hid : id ∈ replacements.keys) (hbad : validId id = false) :
    ¬ Usable env ((Call.applyRecommendationGraphTransaction uuid expected records).perform env
      ⟨files, none⟩) := by
  have hleft : Meets (Taskmaster.applyRecommendationGraphTransaction env uuid expected records)
      ⟨files, none⟩ (fun _ _ => False) (fun _ d => ¬ Usable env d) (fun _ => True) := by
    refine Meets.bind' ((recover_meets (.inl rfl)).mono ?_ (fun _ _ hf => hf.elim)
      (fun _ _ => trivial))
    rintro _ _ rfl
    refine Meets.bind' (Meets.check_ok hplan ?_)
    refine (commit_meets hserde hgood.valid uuid).mono ?_ ?_ (fun _ _ => trivial)
    · rintro _ _ ⟨-, ⟨hempty, -⟩ | ⟨-, -, hnew⟩⟩
      · exact Bool.noConfusion (hsome.symm.trans hempty)
      · exact hinvalid hnew
    · rintro _ _ (⟨hrefused, -⟩ | ⟨-, hjob, -, X, rfl, hheld⟩) husable
      · exact nomatch hverify.symm.trans hrefused
      -- opening the store runs into the refused recovery
      have hopen : Meets (openStore env) ((commitJob uuid files replacements).disk files X)
          (fun _ _ => False) (fun _ _ => True) (fun _ => True) := by
        refine Meets.seq (migrate_settles (d := (commitJob uuid files replacements).disk files X)
          hgood) ?_
        rintro _ _ rfl
        refine Meets.bind' ((recoverTransactions_held hjob hheld).mono ?_ (fun _ _ _ => trivial)
          (fun _ _ => trivial))
        rintro _ _ ⟨-, hids⟩
        obtain ⟨replacement, hget⟩ := TextMap.mem_keys.mp hid
        have hvalid := hids (id, replacement) (mem_toList.mpr hget)
        rw [hbad] at hvalid
        cases hvalid
      exact hopen.ok () husable.opens
  cases hr : (Taskmaster.applyRecommendationGraphTransaction env uuid expected records
      ⟨files, none⟩).result with
  | ok u => exact (hleft.ok u hr).elim
  | error e => exact hleft.error e hr

/-! ### A codec -/

instance countableChar : Countable Char := ⟨⟨Char.toNat, fun _ _ => Char.toNat_inj.mp⟩⟩

instance countableString : Countable String := by
  obtain ⟨f, hf⟩ := exists_injective_nat (List Char)
  exact ⟨⟨fun s => f s.toList, fun _ _ h => String.toList_inj.mp (hf h)⟩⟩

deriving instance Countable for ObservationKind, Impact, ObservationSource, RecommendationType,
  AuditCriterion, AuditCleanupEntry, AuditCleanup, RecommendationStatus, RecommendationConfidence,
  TargetSurface, DismissalWatermark, WorkflowObservationEvidence, RepositoryEvidence,
  KnowledgeEvidence, RecommendationReadinessReference, ContextLevel, AssessmentProvenance,
  TargetAction, ChangeTarget, ProposedChange, PacketAttribution, PacketReadiness,
  CompletionVerificationResult, CompletionReviewOutcome, CompletionActionRole,
  CompletionEvidenceIssueKind, CompletionEvidenceProvenance, CompletionChangeSubject,
  CompletionVerification, CompletionReview, CompletionEvidenceIssue, CompletionAction,
  CompletionApproval, CompletionPacketLineage, CompletionPacket, WorkflowImprovement,
  Recommendation, RollupTransactionEntry, RollupTransactionManifest

namespace Sample

/-- Zeros, as many as the number of the value. -/
noncomputable def zeros {α : Type} [Countable α] (a : α) : Bytes :=
  List.replicate ((exists_injective_nat α).choose a) 0

variable {α : Type}

theorem zeros_injective [Countable α] : Function.Injective (zeros (α := α)) := by
  intro a b h
  have hlength := congrArg List.length h
  rw [zeros, zeros, length_replicate, length_replicate] at hlength
  exact (exists_injective_nat α).choose_spec hlength

theorem zeros_ne [Countable α] (a : α) {bytes : Bytes} (h : bytes.head? = some 0x7b) :
    zeros a ≠ bytes := by
  intro heq
  rw [zeros] at heq
  rw [← heq, List.head?_replicate] at h
  split at h <;> cases h

/-- The value with these zeros. -/
noncomputable def unzeros {α : Type} [Countable α] (bytes : Bytes) : Except String α :=
  open Classical in
  if h : ∃ a : α, zeros a = bytes then .ok h.choose else .error "expected value"

theorem unzeros_zeros [Countable α] (a : α) : unzeros (zeros a) = .ok a := by
  have h : ∃ b : α, zeros b = zeros a := ⟨a, rfl⟩
  rw [unzeros, dif_pos h]
  exact congrArg Except.ok (zeros_injective h.choose_spec)

/-- A codec that knows the texts of these values; any other value has some encoding. -/
noncomputable def encodeListed [Countable α] [DecidableEq α] (texts : List (α × Bytes)) (a : α) :
    Bytes :=
  match texts.find? (fun text => text.1 = a) with
  | some text => text.2
  | none => zeros a

noncomputable def decodeListed [Countable α] (texts : List (α × Bytes)) (bytes : Bytes) :
    Except String α :=
  match texts.find? (fun text => text.2 = bytes) with
  | some text => .ok text.1
  | none => unzeros bytes

theorem decodeListed_encodeListed [Countable α] [DecidableEq α] {texts : List (α × Bytes)}
    (hnodup : (texts.map Prod.snd).Nodup) (hjson : ∀ text ∈ texts, text.2.head? = some 0x7b)
    (a : α) : decodeListed texts (encodeListed texts a) = .ok a := by
  unfold encodeListed
  cases hfind : texts.find? (fun text => text.1 = a) with
  | some text =>
    have hmem := mem_of_find?_eq_some hfind
    have hsame : texts.find? (fun other => other.2 = text.2) = some text := by
      have hsome : (texts.find? (fun other => other.2 = text.2)).isSome :=
        List.find?_isSome.mpr ⟨text, hmem, by simp⟩
      obtain ⟨other, hother⟩ := Option.isSome_iff_exists.mp hsome
      have heq : other.2 = text.2 := by simpa using List.find?_some hother
      rw [hother, inj_on_of_nodup_map hnodup (mem_of_find?_eq_some hother) hmem heq]
    have ha : text.1 = a := by simpa using List.find?_some hfind
    simp only [decodeListed, hsame, ha]
  | none =>
    have hother : texts.find? (fun text => text.2 = zeros a) = none := by
      refine List.find?_eq_none.mpr (fun text htext heq => ?_)
      exact zeros_ne a (hjson text htext) (by simpa using heq : text.2 = zeros a).symm
    simp only [decodeListed, hother, unzeros_zeros]

def recordTexts : List (Recommendation × Bytes) := [(record, json)]

def manifestTexts : List (RollupTransactionManifest × Bytes) :=
  [(manifest false, manifestJson false), (manifest true, manifestJson true)]

/-- `serde_json` on the sample record and its manifests. -/
noncomputable def serde : Serde where
  encode := encodeListed recordTexts
  decode := decodeListed recordTexts
  encodeManifest := encodeListed manifestTexts
  decodeManifest := decodeListed manifestTexts

theorem serde_lawful : serde.Lawful where
  decode_encode := decodeListed_encodeListed (by decide +kernel) (by decide +kernel)
  decodeManifest_encode := decodeListed_encodeListed (by decide +kernel) (by decide +kernel)

noncomputable def store : Env where
  digests := env.digests
  serde := serde

theorem empty_good : Good store ∅ where
  valid := validateGraph_ok.mpr ⟨[], by decide, by simp, by simp⟩
  named := by
    intro name bytes r hfile
    rw [get_empty] at hfile
    cases hfile

/-- An assessed record whose id is no file name and whose readiness reference is
empty. -/
def unsafeRecord : Recommendation :=
  { record with
    id := "a/b"
    assessment := some
      { id := ""
        inputFingerprint := ""
        contextLevel := .sessionObservations
        excludedPaths := []
        accessRedacted := false
        readinessReference := some { snapshotId := "", rubricDigest := "", conceptIds := [] } } }

noncomputable def unsafeReplacements : TextMap Replacement :=
  (∅ : TextMap Replacement).insert "a/b" ⟨none, some (zeros unsafeRecord)⟩

theorem unsafe_encoded : store.serde.encode unsafeRecord = zeros unsafeRecord := by
  have hother : ¬ record = unsafeRecord := by decide
  simp [store, serde, encodeListed, recordTexts, hother]

theorem unsafe_plan : graphPlan store ∅ [unsafeRecord] ∅ = .ok unsafeReplacements := by
  have hstored : readAllStoredById store ∅ = .ok ∅ := by decide
  have hexpected : verifyExpected store ∅
      (values ((∅ : Stored).map (fun _ record => record.1))) (∅ : TextMap (Option String)).toList =
      .ok () := by decide
  have hnext : recordsById [unsafeRecord] = (∅ : TextMap Recommendation).insert "a/b" unsafeRecord :=
    rfl
  have hsize : reject ((recordsById [unsafeRecord]).size != [unsafeRecord].length)
      "recommendation graph contains duplicate IDs" = .ok () := by decide
  have hgraph : validateGraphRecords store.digests (values (recordsById [unsafeRecord])) = .ok () := by
    rw [hnext, values, toList_singleton]
    decide
  have hkept : checkKept (recordsById [unsafeRecord])
      ((∅ : Stored).map (fun _ record => record.1)).toList = .ok () := by decide
  have hreplacements : graphReplacements store ∅ (recordsById [unsafeRecord]) =
      unsafeReplacements := by
    apply TextMap.ext
    intro id
    rw [graphReplacements, get_filterMap, hnext, get_insert, unsafeReplacements,
      get_insert, get_empty, get_empty]
    split
    · simp [unsafe_encoded]
    · rfl
  unfold graphPlan
  refine seq_eq_ok.mpr ⟨empty_good.valid, bind_eq_ok.mpr ⟨∅, hstored, ?_⟩⟩
  refine seq_eq_ok.mpr ⟨hexpected, seq_eq_ok.mpr ⟨hsize, seq_eq_ok.mpr ⟨hgraph, ?_⟩⟩⟩
  exact seq_eq_ok.mpr ⟨hkept, congrArg Except.ok hreplacements⟩

theorem unsafe_verify : verifyCommit store ∅ unsafeReplacements ∅ = .ok () := by
  have hread : readAll store ∅ = .ok [] := by decide
  have hexpected : verifyExpected store ∅ [] (∅ : TextMap (Option String)).toList = .ok () := by
    decide
  refine bind_eq_ok.mpr ⟨[], hread, seq_eq_ok.mpr ⟨hexpected, ?_⟩⟩
  rw [unsafeReplacements, toList_singleton, verifyReplacements, if_neg]
  · rfl
  · simp

/-- The record does not pass `validate_recommendation`, so it cannot be read back. -/
theorem unsafe_not_valid : ¬ (commitJob "0" ∅ unsafeReplacements).NewValid store := by
  intro hnew
  have hitem : ("a/b", (⟨none, some (zeros unsafeRecord)⟩ : Replacement)) ∈
      (commitJob "0" ∅ unsafeReplacements).items := by
    change _ ∈ ((∅ : TextMap Replacement).insert "a/b" _).toList
    rw [toList_singleton]
    exact mem_singleton.mpr rfl
  have hids : ((commitJob "0" ∅ unsafeReplacements).items.map Prod.fst).Nodup := by
    change (unsafeReplacements.toList.map Prod.fst).Nodup
    rw [toList_keys]
    exact keys_nodup
  have hlanded : (⟨none, some (zeros unsafeRecord)⟩ : Replacement).landed store =
      some (zeros unsafeRecord) := Replacement.landed_of_differ (by simp)
  have hfile := (Job.after_item hids hitem).trans hlanded
  obtain ⟨records, hrecords, -⟩ := validateGraph_ok.mp hnew
  obtain ⟨stored, hstored, -⟩ := readAll_ok.mp hrecords
  obtain ⟨r, hread⟩ := readAllStored_readable hstored hfile
    ((isJsonFile_filename _).mpr (by decide))
  rw [← unsafe_encoded] at hread
  have hr := readRecord_encode serde_lawful hread
  have hinvalid : validateRecommendation store.digests unsafeRecord ≠ .ok () := by decide
  exact hinvalid (hr ▸ (readRecord_ok.mp hread).2)

end Sample

open Sample

/-- Adding a record to an empty store leaves a store that opens and lists. -/
theorem added_record_usable :
    Usable store ((Call.applyRecommendationGraphTransaction "0" ∅ [record]).perform
      store ⟨∅, none⟩) := by
  refine store_stays_usable store serde_lawful ∅ empty_good.valid
    empty_good.named [.applyRecommendationGraphTransaction "0" ∅ [record]] _ ?_
  refine .next .start ⟨?_, rfl⟩
  intro _ _
  refine .inl (fun r hr => ?_)
  rw [mem_singleton.mp hr]
  decide

/-- A graph with an unsafe id and an invalid record leaves a store that does not
open. -/
theorem unsafe_record_sticks :
    ¬ Usable store
      ((Call.applyRecommendationGraphTransaction "0" ∅ [unsafeRecord]).perform
        store ⟨∅, none⟩) := by
  refine apply_sticks serde_lawful empty_good "0" unsafe_plan
    unsafe_verify ?_ unsafe_not_valid ?_ (by decide : validId "a/b" = false)
  · simp [unsafeReplacements]
  · exact TextMap.mem_keys.mpr ⟨_, get_insert_self⟩

end Orkworksd.Taskmaster
