import Orkworksd.Taskmaster.GraphPlan
import Orkworksd.Taskmaster.StoreRun

/- The two levels of the recommendation store: the files of a directory and the records
   they hold.

   A directory `Shows` its records when each is in the file of its id and every file that is
   read holds one. An operation on disk `Refines` its counterpart on records when it succeeds
   with what that answers and fails where that refuses, and then the records stay. Here this is
   proved of the operations on one record, whether or not the graph is valid; the operations
   on the graph follow in `StoreRefinement`. -/
namespace Orkworksd.Taskmaster
open Lib Prog TextMap

/-- The directory holds these records, each in the file of its id. -/
structure Shows (env : Env) (files : Files) (records : Records) : Prop where
  keyed : Keyed records
  named : Named env files
  readable : ∀ (name : String) (bytes : Bytes), files[name]? = some bytes → isJsonFile name = true →
    ∃ r, readRecord env bytes = .ok r
  holds : ∀ r : Recommendation, Contains env files r ↔ records[r.id]? = some r

/-- Recovery leaves the files: there is no transaction, or one that is rolled back already
and has safe ids only. -/
def Recoverable (env : Env) (d : Disk) : Prop :=
  d.transactions = none ∨ d.transactions = some ∅ ∨
    ∃ (job : Job) (X : Files), job.Sound env ∧ d = job.disk job.before X ∧
      Held env job true job.before X ∧ ¬ job.NewValid env ∧
      ∀ item ∈ job.items, validId item.1 = true

/-- The disk between two operations. -/
structure Stands (env : Env) (d : Disk) (records : Records) : Prop where
  shows : Shows env d.files records
  recoverable : Recoverable env d

section directory
variable {env : Env} {files : Files} {d : Disk} {records : Records} {r : Recommendation}
  {name : String} {bytes : Bytes}

variable {id : String}

theorem Shows.empty : Shows env ∅ ∅ where
  keyed := by
    intro id r hr
    rw [get_empty] at hr
    cases hr
  named := by
    intro name bytes r hfile
    rw [get_empty] at hfile
    cases hfile
  readable := by
    intro name bytes hfile
    rw [get_empty] at hfile
    cases hfile
  holds := by
    intro r
    rw [get_empty]
    refine ⟨?_, fun h => by cases h⟩
    rintro ⟨bytes, name, hfile, -⟩
    rw [get_empty] at hfile
    cases hfile

theorem Shows.each (h : Shows env files records) : EachValid env.digests records := by
  intro id r hr
  have hid := h.keyed id r hr
  subst hid
  obtain ⟨bytes, name, -, -, hread⟩ := (h.holds r).mpr hr
  exact (readRecord_ok.mp hread).2

theorem Shows.file (h : Shows env files records) (hr : records[r.id]? = some r) :
    r.id ≠ "" ∧ ∃ bytes, files[recommendationFilename r.id]? = some bytes ∧
      readRecord env bytes = .ok r := by
  obtain ⟨bytes, name, hfile, hjson, hread⟩ := (h.holds r).mpr hr
  have hname := h.named name bytes r hfile hjson hread
  subst hname
  exact ⟨(isJsonFile_filename _).mp hjson, bytes, hfile, hread⟩

theorem Shows.id_ne_empty (h : Shows env files records) (hr : records[id]? = some r) :
    r.id ≠ "" := by
  have hid := h.keyed id r hr
  subst hid
  exact (h.file hr).1

theorem Stands.idle (h : Stands env d records) : Stands env ⟨d.files, none⟩ records :=
  ⟨h.shows, .inl rfl⟩

theorem Shows.read (h : Shows env files records) {id : String} (hid : id ≠ "")
    (hfile : files[recommendationFilename id]? = some bytes) :
    ∃ r, records[id]? = some r ∧ readRecord env bytes = .ok r := by
  have hjson := (isJsonFile_filename id).mpr hid
  obtain ⟨r, hread⟩ := h.readable _ _ hfile hjson
  have hname := recommendationFilename_injective (h.named _ _ r hfile hjson hread)
  refine ⟨r, ?_, hread⟩
  rw [hname]
  exact (h.holds r).mp ⟨bytes, _, hfile, hjson, hread⟩

theorem Shows.absent (h : Shows env files records) (hid : id ≠ "") :
    files[recommendationFilename id]? = none ↔ records[id]? = none := by
  constructor
  · intro hfile
    cases hr : records[id]? with
    | none => rfl
    | some r =>
      have hkey := h.keyed id r hr
      subst hkey
      obtain ⟨-, bytes, hb, -⟩ := h.file hr
      rw [hfile] at hb
      cases hb
  · intro hr
    cases hfile : files[recommendationFilename id]? with
    | none => rfl
    | some bytes =>
      obtain ⟨r, hr', -⟩ := h.read hid hfile
      rw [hr] at hr'
      cases hr'

theorem Shows.readId (h : Shows env files records) (hid : id ≠ "") :
    readId env id files = .ok records[id]? := by
  unfold Taskmaster.readId
  cases hfile : files[recommendationFilename id]? with
  | none => rw [(h.absent hid).mp hfile]
  | some bytes =>
    obtain ⟨r, hr, hread⟩ := h.read hid hfile
    simp only [hread, hr]
    rfl

theorem Shows.listed (h : Shows env files records) :
    ∃ l, readAll env files = .ok l ∧ (l.map (·.id)).Nodup ∧ ∀ r, r ∈ l ↔ r ∈ values records := by
  obtain ⟨stored, hstored⟩ := readAllStored_total h.readable
  have hread := readAll_ok.mpr ⟨stored, hstored, rfl⟩
  refine ⟨_, hread, readAll_ids_nodup h.named hread, ?_⟩
  intro r
  exact (mem_readAll hread r).trans
    ((h.holds r).trans ((mem_listing h.keyed).symm.trans mem_sortBy))

/-- The stored records by their ids are the records, with the files of their ids. -/
theorem Shows.stored (h : Shows env files records) :
    ∃ stored, readAllStoredById env files = .ok stored ∧
      stored.map (fun _ record => record.1) = records ∧
      ∀ id : String, id ≠ "" → (stored[id]?).map Prod.snd = files[recommendationFilename id]? := by
  obtain ⟨all, hall⟩ := readAllStored_total h.readable
  obtain ⟨stored, hstored⟩ : ∃ stored, readAllStoredById env files = .ok stored := by
    rw [readAllStoredById, hall]
    exact ⟨_, rfl⟩
  have hget : ∀ r bytes, Holds env files r bytes → stored[r.id]? = some (r, bytes) := fun _ _ =>
    stored_get_of_nodup hall (readAllStored_ids_nodup h.named hall) hstored
  refine ⟨stored, hstored, ?_, ?_⟩
  · apply TextMap.ext
    intro id
    rw [get_map]
    cases hs : stored[id]? with
    | some record =>
      obtain ⟨hholds, hid⟩ := readAllStoredById_get hstored hs
      subst hid
      exact ((h.holds record.1).mp ⟨_, hholds⟩).symm
    | none =>
      cases hr : records[id]? with
      | none => rfl
      | some r =>
        have hid := h.keyed id r hr
        subst hid
        obtain ⟨bytes, hholds⟩ := (h.holds r).mpr hr
        rw [hget r bytes hholds] at hs
        cases hs
  · intro id hid
    cases hs : stored[id]? with
    | some record =>
      obtain ⟨⟨name, hfile, hjson, hread⟩, hkey⟩ := readAllStoredById_get hstored hs
      subst hkey
      rw [← h.named name _ _ hfile hjson hread, hfile]
      rfl
    | none =>
      cases hfile : files[recommendationFilename id]? with
      | none => rfl
      | some bytes =>
        obtain ⟨r, hr, hread⟩ := h.read hid hfile
        have hkey := h.keyed id r hr
        subst hkey
        rw [hget r bytes ⟨_, hfile, (isJsonFile_filename _).mpr hid, hread⟩] at hs
        cases hs

theorem Shows.graph_iff (h : Shows env files records) :
    validateGraph env files = .ok () ↔ Graph.Ok env.digests (values records) := by
  obtain ⟨l, hl, hnd, hmem⟩ := h.listed
  rw [validateGraph_ok]
  constructor
  · rintro ⟨l', hl', hok⟩
    rw [hl, Except.ok.injEq] at hl'
    subst hl'
    exact hok.congr (values_ids_nodup h.keyed) hmem
  · exact fun hok => ⟨l, hl, hok.congr hnd (fun r => (hmem r).symm)⟩

/-- The directory can be read when its records can. -/
theorem Shows.reads_iff (h : Shows env files records) :
    validateGraph env files = .ok () ↔ readRecords env.digests records = .ok () := by
  rw [h.graph_iff, readRecords_ok]
  exact ⟨fun hgraph => ⟨h.each, hgraph⟩, fun hread => hread.2⟩

/-! ## Recovery and the file of one record -/

theorem recover_meets (h : Recoverable env d) :
    Meets (recoverTransactions env) d (fun _ d' => d' = ⟨d.files, none⟩) (fun _ _ => False)
      (fun _ => True) := by
  obtain hnone | hempty | ⟨job, X, hjob, rfl, hheld, hinvalid, hids⟩ := h
  · obtain ⟨files, transactions⟩ := d
    subst hnone
    exact Meets.bind' (Meets.look' (Meets.pure' rfl))
  · obtain ⟨files, transactions⟩ := d
    subst hempty
    refine Meets.bind' (Meets.look' ?_)
    change Meets (forEach (recoverDirectory env) (∅ : TextMap Files).keys >>= fun _ =>
      removeEmptyTransactions) _ _ _ _
    rw [keys_empty]
    refine Meets.bind' (Meets.pure' (Meets.bind' (Meets.look' (Meets.ite' ?_ ?_))))
    · intro _
      exact Meets.step' trivial rfl
    · intro hne
      exact absurd (by simp) hne
  · have hsettled : job.settled env true = job.before := if_neg (fun h => hinvalid h.2)
    refine (recoverTransactions_held hjob hheld).mono ?_ ?_ (fun _ _ => trivial)
    · rintro _ d' ⟨rfl, -⟩
      rw [hsettled]
      rfl
    · rintro _ d' ⟨-, hnot⟩
      exact hnot hids

theorem recover_then {α : Type} {p : StoreM α} {post : α → Disk → Prop}
    {err : StoreError → Disk → Prop} (h : Recoverable env d)
    (hp : Meets p ⟨d.files, none⟩ post err (fun _ => True)) :
    Meets (recoverTransactions env >>= fun _ => p) d post err (fun _ => True) := by
  refine Meets.bind' ((recover_meets h).mono ?_ (fun _ _ hf => hf.elim) (fun _ _ => trivial))
  rintro _ d' rfl
  exact hp

/-- The directory after `put_current`. -/
def putFiles (env : Env) (files : Files) (after : Recommendation) : Files :=
  (files.erase (temporaryFilename after.id)).insert (recommendationFilename after.id)
    (env.serde.encode after)

theorem putFiles_json (hjson : isJsonFile name = true) : (putFiles env files r)[name]? =
      if recommendationFilename r.id = name then some (env.serde.encode r)
      else files[name]? := by
  have hne : temporaryFilename r.id ≠ name := by
    rintro rfl
    rw [isJsonFile_temporary] at hjson
    cases hjson
  rw [putFiles, get_insert]
  split
  · rfl
  · exact get_erase_ne hne

theorem Shows.put (h : Shows env files records) (hserde : env.serde.Lawful) (hid : r.id ≠ "")
    (hvalid : validateRecommendation env.digests r = .ok ()) :
    Shows env (putFiles env files r) (records.insert r.id r) where
  keyed := h.keyed.insert r
  named := by
    intro name bytes x hfile hjson hread
    rw [putFiles_json hjson] at hfile
    split at hfile
    · next hname =>
      cases hfile
      rw [readRecord_encode hserde hread, hname]
    · exact h.named name bytes x hfile hjson hread
  readable := by
    intro name bytes hfile hjson
    rw [putFiles_json hjson] at hfile
    split at hfile
    · cases hfile
      exact ⟨r, readRecord_ok.mpr ⟨hserde.decode_encode r, hvalid⟩⟩
    · exact h.readable name bytes hfile hjson
  holds := by
    intro x
    rw [get_insert]
    constructor
    · rintro ⟨bytes, name, hfile, hjson, hread⟩
      rw [putFiles_json hjson] at hfile
      split at hfile
      · cases hfile
        rw [readRecord_encode hserde hread, if_pos rfl]
      · next hname =>
        have hfile' := h.named name bytes x hfile hjson hread
        rw [if_neg]
        · exact (h.holds x).mp ⟨bytes, name, hfile, hjson, hread⟩
        · exact fun heq => hname (heq ▸ hfile'.symm)
    · intro hx
      split at hx
      · cases hx
        have hjson := (isJsonFile_filename r.id).mpr hid
        exact ⟨_, recommendationFilename r.id, by rw [putFiles_json hjson, if_pos rfl], hjson,
          readRecord_ok.mpr ⟨hserde.decode_encode r, hvalid⟩⟩
      · next hne =>
        obtain ⟨hid', bytes, hfile, hread⟩ := h.file hx
        have hjson := (isJsonFile_filename x.id).mpr hid'
        refine ⟨bytes, recommendationFilename x.id, ?_, hjson, hread⟩
        rw [putFiles_json hjson, if_neg (fun heq => hne (recommendationFilename_injective heq))]
        exact hfile

theorem putCurrent_meets (h : Recoverable env d) (after : Recommendation) :
    Meets (putCurrent env after) d
      (fun _ d' => d' = ⟨putFiles env d.files after, none⟩ ∧
        validateRecommendation env.digests after = .ok ())
      (fun _ d' => d' = ⟨d.files, none⟩ ∧ validateRecommendation env.digests after ≠ .ok ())
      (fun _ => True) := by
  refine recover_then h (Meets.bind' (Meets.check' ?_ ?_))
  · intro _ hvalid
    refine Meets.bind' (Meets.during' (fun _ _ => trivial) trivial (Meets.step' trivial ⟨?_, hvalid⟩))
    -- the temporary file was written and renamed away
    have htemporary : (d.files.insert (temporaryFilename after.id) (env.serde.encode after)).erase
        (temporaryFilename after.id) = d.files.erase (temporaryFilename after.id) := by
      apply TextMap.ext
      intro a
      rw [get_erase, get_erase]
      split
      · rfl
      · next hne => exact get_insert_ne hne
    change Disk.mk (((d.files.insert (temporaryFilename after.id) (env.serde.encode after)).erase
      (temporaryFilename after.id)).insert _ _) none = _
    rw [htemporary]
    rfl
  · intro e he
    exact ⟨rfl, fun hok => nomatch hok.symm.trans he⟩

end directory

/-! ## Refinement -/

/-- The operation succeeds with what the result answers, or it fails where the result is a
refusal and the records stay. -/
def Refines {α β : Type} (env : Env) (p : StoreM α) (d : Disk) (records : Records)
    (answers : α → Disk → β → Prop) (result : Except StoreError β) : Prop :=
  Meets p d (fun a d' => ∃ b, result = .ok b ∧ answers a d' b)
    (fun _ d' => (∃ e, result = .error e) ∧ Stands env d' records) (fun _ => True)

/-- The disk holds the records of the result. -/
def Leaves {α : Type} (env : Env) (_ : α) (d : Disk) (next : Records) : Prop := Stands env d next

section refines
variable {α β γ : Type} {env : Env} {d : Disk} {records : Records} {answers : α → Disk → β → Prop}
  {id : String}

variable {r : Recommendation}

theorem Refines.check {f : Disk → Except StoreError γ} {k : γ → StoreM α}
    {g : γ → Except StoreError β} {x : Except StoreError γ} (h : Stands env d records)
    (hf : f d = x) (hk : ∀ c, x = .ok c → Refines env (k c) d records answers (g c)) :
    Refines env (Prog.check f >>= k) d records answers (x >>= g) := by
  subst hf
  refine Meets.bind' (Meets.check' ?_ ?_)
  · intro c hc
    rw [hc]
    exact hk c hc
  · intro e he
    rw [he]
    exact ⟨⟨e, rfl⟩, h⟩

theorem validate_superseded {digests : Digests} (h : r.status = .proposed) :
    validateRecommendation digests { r with status := .superseded } =
      validateRecommendation digests r := by
  have hpacket : ∀ packet, validatePacket digests { r with status := .superseded } packet =
      validatePacket digests r packet := by
    intro packet
    unfold validatePacket
    rw [h]
    rfl
  unfold validateRecommendation
  simp only [hpacket]

theorem getCurrent_refines (h : Stands env d records) {absent : β}
    {change : Recommendation → Except StoreError β} {k : Option Recommendation → StoreM α}
    (habsent : Refines env (k none) ⟨d.files, none⟩ records answers (.ok absent))
    (hchange : ∀ r, validId id = true → records[id]? = some r →
      Refines env (k (some r)) ⟨d.files, none⟩ records answers (change r)) :
    Refines env (getCurrent env id >>= k) d records answers
      (onFound env.digests id records absent change) := by
  refine Meets.bind' (recover_then h.recoverable (Meets.bind' (Meets.check' ?_ ?_)))
  · intro _ hread
    unfold onFound
    rw [h.shows.reads_iff.mp hread]
    refine Meets.ite' ?_ ?_
    · intro hid
      rw [show (Except.ok () >>= _ : Except StoreError β) = _ from if_pos hid]
      exact Meets.pure' habsent
    · intro hid
      have hid' : validId id = true := by simpa using hid
      refine Meets.check_ok (h.shows.readId (validId_ne_empty hid')) ?_
      rw [show (Except.ok () >>= _ : Except StoreError β) = _ from if_neg hid]
      cases hr : records[id]? with
      | none => exact habsent
      | some r => exact hchange r hid' hr
  · intro e he
    refine ⟨?_, h.idle⟩
    cases hread : readRecords env.digests records with
    | error e => exact ⟨e, by rw [onFound, hread]; rfl⟩
    | ok _ => exact nomatch he.symm.trans (h.shows.reads_iff.mpr hread)

theorem put_refines (hserde : env.serde.Lawful) (h : Stands env d records) (hid : r.id ≠ "") :
    Refines env (putCurrent env r) d records (Leaves env) (putResult env.digests r records) := by
  refine (putCurrent_meets h.recoverable r).mono ?_ ?_ (fun _ _ => trivial)
  · rintro _ d' ⟨rfl, hvalid⟩
    exact ⟨_, putResult_ok.mpr ⟨hvalid, rfl⟩, h.shows.put hserde hid hvalid, .inl rfl⟩
  · rintro _ d' ⟨rfl, hinvalid⟩
    refine ⟨?_, h.shows, .inl rfl⟩
    unfold putResult
    cases hvalid : validateRecommendation env.digests r with
    | ok _ => exact absurd hvalid hinvalid
    | error e => exact ⟨e, rfl⟩

theorem put_then (hserde : env.serde.Lawful) (h : Stands env d records)
    (hid : r.id ≠ "") {k : Unit → StoreM α} {g : Records → Except StoreError β}
    (hk : validateRecommendation env.digests r = .ok () →
      ∀ d', Stands env d' (records.insert r.id r) → Refines env (k ()) d' records answers
        (g (records.insert r.id r))) :
    Refines env (putCurrent env r >>= k) d records answers
      (putResult env.digests r records >>= g) := by
  refine Meets.bind' ((put_refines hserde h hid).mono ?_ ?_ (fun _ _ => trivial))
  · rintro _ d' ⟨next, hput, hleft⟩
    obtain ⟨hvalid, rfl⟩ := putResult_ok.mp hput
    rw [hput]
    exact hk hvalid d' hleft
  · rintro _ d' ⟨⟨e, he⟩, hkept⟩
    rw [he]
    exact ⟨⟨e, rfl⟩, hkept⟩

section operations
variable (hserde : env.serde.Lawful) (h : Stands env d records)
include hserde h

theorem updateRecord_refines {change : Recommendation → Except StoreError Recommendation}
    (hchange : ∀ r r', change r = .ok r' → r'.id = r.id) :
    Refines env (updateRecord env id change) d records (Leaves env)
      (updateResult env.digests id change records) := by
  refine getCurrent_refines h (Meets.pure' ⟨records, rfl, h.idle⟩) ?_
  intro r _ hr
  refine Refines.check h.idle rfl ?_
  intro next hnext
  have hid : next.id ≠ "" := (hchange r next hnext).symm ▸ h.shows.id_ne_empty hr
  rw [← bind_pure (putResult env.digests next records)]
  refine put_then hserde h.idle hid ?_
  exact fun _ d' hd' => Meets.pure' ⟨_, rfl, hd'⟩

/-- The answer, and the records it leaves. -/
def Returns {α : Type} (env : Env) (a : α) (d : Disk) (b : α × Records) : Prop :=
  a = b.1 ∧ Stands env d b.2

theorem completeAcceptedChecked_refines (completedAt : String)
    (mutation : CompletionMutationRequest) :
    Refines env (completeAcceptedChecked env id completedAt mutation) d records (Returns env)
      (completeAcceptedCheckedResult env.digests id completedAt mutation records) := by
  refine Refines.check h rfl ?_
  intro _ _
  refine getCurrent_refines h (Meets.pure' ⟨_, rfl, rfl, h.idle⟩) ?_
  intro r _ hr
  refine Refines.check h.idle rfl ?_
  intro changed hchanged
  cases changed with
  | none => exact Meets.pure' ⟨_, rfl, rfl, h.idle⟩
  | some next =>
    have honce : completedOnce id completedAt mutation r = .ok next := by
      unfold completedOnce
      rw [hchanged]
      rfl
    have hid : next.id ≠ "" := (completedOnce_moves honce).id.symm ▸ h.shows.id_ne_empty hr
    refine put_then hserde h.idle hid ?_
    exact fun _ d' hd' => Meets.pure' ⟨_, rfl, rfl, hd'⟩

theorem cancelExecution_refines (cancelledAt : String) :
    Refines env (cancelExecution env id cancelledAt) d records (Leaves env)
      (cancelResult env.digests id cancelledAt records) := by
  refine getCurrent_refines h (Meets.pure' ⟨records, rfl, h.idle⟩) ?_
  intro r _ hr
  refine Refines.check h.idle rfl ?_
  intro next hnext
  have hid : next.id ≠ "" := (cancelExecutionChange_moves hnext).id.symm ▸ h.shows.id_ne_empty hr
  refine put_then hserde h.idle hid ?_
  intro hvalid d' hd'
  refine Meets.ite' ?_ ?_
  · intro hredacted
    rw [if_pos hredacted]
    -- the second record is as valid as the first, so this put is not refused
    have hproposed : next.status = .proposed := by
      obtain ⟨-, hnext⟩ := seq_eq_ok.mp hnext
      cases hnext
      rfl
    have hagain := (validate_superseded hproposed).trans hvalid
    refine Meets.bind' ((put_refines (r := { next with status := .superseded }) hserde hd' hid).mono
      ?_ ?_ (fun _ _ => trivial))
    · exact fun _ _ hleft => Meets.pure' hleft
    · rintro _ d'' ⟨⟨e, he⟩, -⟩
      exact nomatch he.symm.trans (putResult_ok.mpr ⟨hagain, rfl⟩)
  · intro hredacted
    rw [if_neg hredacted]
    exact Meets.pure' ⟨_, rfl, hd'⟩

end operations

end refines

end Orkworksd.Taskmaster
