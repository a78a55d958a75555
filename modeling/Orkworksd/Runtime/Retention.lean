import Mathlib.Data.String.Basic
import Orkworksd.Lib.SortedCut

/- One retention pass (`runtime/retention.rs`, `retention_cleanup_once`) under any configuration
   that `set_retention` accepts.

   The pass reads the closed sessions, and then deletes in two critical sections, each with
   what it finds there: a `View`. Deletions succeed. An instant is a number of nanoseconds, and
   the reading of RFC 3339 a parameter.

   `retentionCleanupOnce_exact` says where a pass deletes what the configuration asks for: the
   age must not reach before the first instant that a `DateTime` can hold, where the
   subtraction panics, and the order of the last activities as texts, which the count step
   goes by, must not part two sessions against their order in time. -/
namespace Orkworksd.Runtime.Retention
open Lib List

/-! ## The source -/

structure RetentionConfig where
  maxSessions : Nat
  maxAgeDays : UInt32
  deriving DecidableEq, Repr

/-- `set_retention`: the request is the configuration. -/
def setRetention (request : RetentionConfig) : RetentionConfig := request

structure SessionMetadata where
  id : String
  createdAt : String
  lastActivity : String
  lifecyclePhase : String
  lifecycle : String
  deriving DecidableEq, Repr

structure SessionHandle where
  lifecyclePhase : String
  lifecycle : String
  resumeInProgress : Bool
  terminalAttached : Bool
  commandsClosed : Bool
  deriving DecidableEq, Repr

inductive SessionState where
  | active
  | closed
  | archived
  deriving DecidableEq, Repr

/-- A record of `OrganizationStore`, of those that it reads back without an error. -/
structure Record where
  createdAt : String
  state : SessionState
  deriving DecidableEq, Repr

def organizationState (record : Except String (Option Record)) (createdAt : String)
    (closed runtimeActive : Bool) : Except String SessionState :=
  record.map (fun record =>
    -- the record of a deleted session never attaches to a reused id
    let stored := (record.filter (fun record => record.createdAt = createdAt)).map Record.state
    if stored = some .archived ∧ runtimeActive = false then .archived
    else if runtimeActive || !closed then .active
    else stored.getD .closed)

def isClosed (record : Except String (Option Record)) (createdAt : String) : Bool :=
  match organizationState record createdAt true false with
  | .ok .closed => true
  | _ => false

/-- The session files of the workspace, each named by its session's id, and its organization
records: what the pass reads first. -/
structure Stored where
  sessions : List SessionMetadata
  distinct : (sessions.map SessionMetadata.id).Nodup
  organization : String → Except String (Option Record)

/-- What a critical section finds by a session's id: its organization and whether a change of
it is pending, its process, its handle and its file. -/
structure View where
  organization : String → Except String (Option Record)
  pending : String → Bool
  hasPid : String → Bool
  handle : String → Option SessionHandle
  file : String → Option SessionMetadata

def runtimeClosed (handle : Option SessionHandle) (hasPid : Bool) : Bool :=
  !hasPid && handle.all (fun h => h.lifecyclePhase == "ended" && h.lifecycle == "dead" &&
    !h.resumeInProgress && !h.terminalAttached && h.commandsClosed)

def retentionProtected (view : View) (id expectedCreatedAt : String) : Bool :=
  if view.pending id || !runtimeClosed (view.handle id) (view.hasPid id) then true
  else
    match view.file id with
    | none => true
    | some session =>
      session.createdAt != expectedCreatedAt || session.lifecyclePhase != "ended" ||
        session.lifecycle != "dead" || !isClosed (view.organization id) session.createdAt

/-- A session deleted: its file, its organization record and its handle. -/
def View.delete (view : View) (id : String) : View :=
  { view with
    organization := fun other => if other = id then .ok none else view.organization other
    handle := fun other => if other = id then none else view.handle other
    file := fun other => if other = id then none else view.file other }

section pass
variable (parseFromRfc3339 : String → Option Int)

def selectExpiredCandidates (candidates : List SessionMetadata) (cutoff : Int)
    (protectedIds : List String) : List String :=
  let ordered := sortOn SessionMetadata.lastActivity candidates
  (ordered.filter (fun session => !protectedIds.contains session.id)).filterMap (fun session =>
    ((parseFromRfc3339 session.lastActivity).filter (fun parsed => parsed < cutoff)).map
      (fun _ => session.id))

def selectCountCandidates (candidates : List SessionMetadata) (maxSessions : Nat)
    (protectedIds : List String) : List String :=
  if maxSessions = 0 ∨ candidates.length ≤ maxSessions then []
  else
    let toDelete := candidates.length - maxSessions
    let ordered := sortOn SessionMetadata.lastActivity candidates
    ((ordered.filter (fun session => !protectedIds.contains session.id)).take toDelete).map
      SessionMetadata.id

def nanosPerDay : Int := 86400000000000

/-- `DateTime::<Utc>::MIN_UTC`, in the year -262143. -/
def minUtc : Int := -8334601228800000000000

/-- `now - Duration::days(days)`; none where it panics. -/
def minusDays (now : Int) (days : UInt32) : Option Int :=
  let cutoff := now - days.toNat * nanosPerDay
  if cutoff < minUtc then none else some cutoff

def candidateIdentity (candidates : List SessionMetadata) (id : String) : String :=
  ((candidates.find? (fun session => session.id == id)).map SessionMetadata.createdAt).getD ""

/-- The loop over the selected ids of a step: those that are deleted. -/
def deleteLoop (identity : String → String) : List String → View → List String
  | [], _ => []
  | id :: ids, view =>
    if retentionProtected view id (identity id) then deleteLoop identity ids view
    else id :: deleteLoop identity ids (view.delete id)

def ageStep (candidates : List SessionMetadata) (cutoff : Int) (view : Option View) :
    List String :=
  let expired := selectExpiredCandidates parseFromRfc3339 candidates cutoff []
  match view with
  | none => []
  | some view => deleteLoop (candidateIdentity candidates) expired view

def countStep (identity : String → String) (candidates : List SessionMetadata)
    (maxSessions : Nat) (view : Option View) : List String :=
  if 0 < maxSessions ∧ maxSessions < candidates.length then
    match view with
    | none => []
    | some view =>
      let protectedIds := (candidates.filter (fun candidate =>
        retentionProtected view candidate.id candidate.createdAt)).map SessionMetadata.id
      deleteLoop identity (selectCountCandidates candidates maxSessions protectedIds) view
  else []

/-- The sessions that the two steps of a pass delete. -/
structure Deleted where
  expired : List String
  counted : List String
  deriving DecidableEq, Repr

def Stored.closedSessions (stored : Stored) : List SessionMetadata :=
  stored.sessions.filter (fun session =>
    isClosed (stored.organization session.id) session.createdAt)

/-- What follows where there are closed sessions. -/
def retentionSteps (config : RetentionConfig) (now : Int) (candidates : List SessionMetadata)
    (aged counted : Option View) : Option Deleted :=
  let identity := candidateIdentity candidates
  if 0 < config.maxAgeDays then
    (minusDays now config.maxAgeDays).map (fun cutoff =>
      let deleted := ageStep parseFromRfc3339 candidates cutoff aged
      let candidates := candidates.filter (fun s => !deleted.contains s.id)
      ⟨deleted, countStep identity candidates config.maxSessions counted⟩)
  else some ⟨[], countStep identity candidates config.maxSessions counted⟩

/-- `retention_cleanup_once`: nothing where it panics. A step finds no view where no workspace
is open. -/
def retentionCleanupOnce (config : RetentionConfig) (now : Int) (stored : Option Stored)
    (aged counted : Option View) : Option Deleted :=
  if config.maxSessions = 0 ∧ config.maxAgeDays = 0 then some ⟨[], []⟩
  else
    match stored with
    | none => some ⟨[], []⟩
    | some stored =>
      if stored.closedSessions = [] then some ⟨[], []⟩
      else
        retentionSteps parseFromRfc3339 config now
          (sortOn SessionMetadata.lastActivity stored.closedSessions) aged counted

end pass

/-! ## What a pass is asked for -/

/-- The closed sessions that the pass has read. -/
def closedSessions (stored : Option Stored) : List SessionMetadata :=
  (stored.map Stored.closedSessions).getD []

/-- The step may delete the session: the workspace is open, and there the session is closed,
ended and dead, with no process and no change pending, and is the one that was read. -/
def unprotected (view : Option View) (session : SessionMetadata) : Bool :=
  view.any (fun view => !retentionProtected view session.id session.createdAt)

section spec
variable (parseFromRfc3339 : String → Option Int)

/-- The last activity is a time, and before the cutoff. -/
def before (cutoff : Int) (session : SessionMetadata) : Bool :=
  (parseFromRfc3339 session.lastActivity).any (fun time => time < cutoff)

/-- The last activity is a time, and older than the days. -/
def older (config : RetentionConfig) (now : Int) (session : SessionMetadata) : Bool :=
  before parseFromRfc3339 (now - config.maxAgeDays.toNat * nanosPerDay) session

/-- The last activity of the one is later in time than that of the other. -/
def LaterThan (a b : SessionMetadata) : Prop :=
  ∃ s t, parseFromRfc3339 a.lastActivity = some s ∧ parseFromRfc3339 b.lastActivity = some t ∧ t < s

/-- What the configuration asks for. -/
structure Exact (config : RetentionConfig) (now : Int) (stored : Option Stored)
    (aged counted : Option View) (deleted : Deleted) : Prop where
  expires : ∀ id, id ∈ deleted.expired ↔ config.maxAgeDays ≠ 0 ∧ ∃ session ∈ closedSessions stored,
    session.id = id ∧ unprotected aged session = true ∧
      older parseFromRfc3339 config now session = true
  unlimited : config.maxSessions = 0 → deleted.counted = []
  once : deleted.counted.Nodup
  remaining : ∀ id ∈ deleted.counted, ∃ session ∈ closedSessions stored,
    session.id = id ∧ id ∉ deleted.expired ∧ unprotected counted session = true
  number : config.maxSessions ≠ 0 →
    let left := (closedSessions stored).filter (fun session => session.id ∉ deleted.expired)
    deleted.counted.length =
      min (left.length - config.maxSessions) (left.countP (unprotected counted))
  oldest : ∀ a ∈ closedSessions stored, ∀ b ∈ closedSessions stored, a.id ∈ deleted.counted →
    b.id ∉ deleted.expired → b.id ∉ deleted.counted → unprotected counted b = true →
      ¬LaterThan parseFromRfc3339 a b

/-- The age reaches before the first instant of a `DateTime`. -/
def Overflows (config : RetentionConfig) (now : Int) (stored : Option Stored) : Prop :=
  closedSessions stored ≠ [] ∧ config.maxAgeDays ≠ 0 ∧
    now - config.maxAgeDays.toNat * nanosPerDay < minUtc

/-- The closed sessions that the age step is asked to leave. -/
def left (config : RetentionConfig) (now : Int) (stored : Option Stored) (aged : Option View) :
    List SessionMetadata :=
  (closedSessions stored).filter (fun session => !(decide (config.maxAgeDays ≠ 0) &&
    unprotected aged session && older parseFromRfc3339 config now session))

/-- Two of the unprotected sessions that are left are in the one order as texts and in the
other in time, and the number of those to go parts them: fewer are before the one as texts,
and more are not after the other. -/
def Misplaced (config : RetentionConfig) (now : Int) (stored : Option Stored)
    (aged counted : Option View) : Prop :=
  let left := left parseFromRfc3339 config now stored aged
  let eligible := left.filter (unprotected counted)
  let excess := left.length - config.maxSessions
  config.maxSessions ≠ 0 ∧ ∃ a ∈ eligible, ∃ b ∈ eligible, LaterThan parseFromRfc3339 a b ∧
    eligible.countP (fun session => session.lastActivity < a.lastActivity) < excess ∧
    excess < eligible.countP (fun session => session.lastActivity ≤ b.lastActivity)

end spec

/-! ## The loop of a step -/

theorem retentionProtected_delete (view : View) {id other : String} (h : other ≠ id)
    (createdAt : String) :
    retentionProtected (view.delete id) other createdAt =
      retentionProtected view other createdAt := by
  simp only [retentionProtected, View.delete, if_neg h]

/-- A deletion leaves the other sessions as they are, so the loop deletes those that were not
protected when it began. -/
theorem deleteLoop_eq (identity : String → String) {ids : List String} (hdistinct : ids.Nodup)
    (view : View) : deleteLoop identity ids view =
      ids.filter (fun id => !retentionProtected view id (identity id)) := by
  induction ids generalizing view with
  | nil => rfl
  | cons id ids ih =>
    obtain ⟨hid, hids⟩ := nodup_cons.mp hdistinct
    rw [deleteLoop]
    by_cases hprotected : retentionProtected view id (identity id) = true
    · rw [if_pos hprotected, filter_cons_of_neg (by simp [hprotected]), ih hids]
    · rw [if_neg hprotected, filter_cons_of_pos (by simp [hprotected]), ih hids]
      refine congrArg (id :: ·) (filter_congr (fun other hother => ?_))
      have hother : other ≠ id := fun h => hid (h ▸ hother)
      rw [retentionProtected_delete view hother]

section step
variable {candidates : List SessionMetadata}

theorem eq_of_id (hdistinct : (candidates.map SessionMetadata.id).Nodup) {a b : SessionMetadata}
    (ha : a ∈ candidates) (hb : b ∈ candidates) (h : a.id = b.id) : a = b :=
  inj_on_of_nodup_map hdistinct ha hb h

theorem candidateIdentity_eq (hdistinct : (candidates.map SessionMetadata.id).Nodup)
    {session : SessionMetadata} (hsession : session ∈ candidates) :
    candidateIdentity candidates session.id = session.createdAt := by
  rw [candidateIdentity]
  cases hfound : candidates.find? (fun other => other.id == session.id) with
  | none =>
    have hother := List.find?_eq_none.mp hfound session hsession
    exact absurd (beq_self_eq_true session.id) hother
  | some other =>
    have hid : (other.id == session.id) = true := by simpa using List.find?_some hfound
    have hsame : other = session :=
      eq_of_id hdistinct (mem_of_find?_eq_some hfound) hsession (eq_of_beq hid)
    rw [hsame]
    rfl

theorem deleteLoop_map (hdistinct : (candidates.map SessionMetadata.id).Nodup)
    {selected : List SessionMetadata} (hselected : ∀ session ∈ selected, session ∈ candidates)
    (hnodup : (selected.map SessionMetadata.id).Nodup) (view : View) :
    deleteLoop (candidateIdentity candidates) (selected.map SessionMetadata.id) view =
      (selected.filter (unprotected (some view))).map SessionMetadata.id := by
  rw [deleteLoop_eq _ hnodup, filter_map]
  refine congrArg _ (filter_congr (fun session hsession => ?_))
  show (!retentionProtected view session.id (candidateIdentity candidates session.id)) = _
  rw [candidateIdentity_eq hdistinct (hselected session hsession)]
  rfl

theorem ageStep_eq (parse : String → Option Int)
    (hdistinct : (candidates.map SessionMetadata.id).Nodup) (cutoff : Int) (view : Option View) :
    ageStep parse candidates cutoff view =
      (((sortOn SessionMetadata.lastActivity candidates).filter (before parse cutoff)).filter
        (unprotected view)).map SessionMetadata.id := by
  have hselect : selectExpiredCandidates parse candidates cutoff [] =
      ((sortOn SessionMetadata.lastActivity candidates).filter (before parse cutoff)).map
        SessionMetadata.id := by
    have hall : (fun session : SessionMetadata => !([] : List String).contains session.id) =
        fun _ => true := rfl
    rw [selectExpiredCandidates, hall, filter_true]
    have hone (session : SessionMetadata) :
        ((parse session.lastActivity).filter (fun parsed => parsed < cutoff)).map
            (fun _ => session.id) =
          if before parse cutoff session then some session.id else none := by
      rw [before]
      cases parse session.lastActivity with
      | none => rfl
      | some time => by_cases hbefore : time < cutoff <;> simp [Option.filter, hbefore]
    induction sortOn SessionMetadata.lastActivity candidates with
    | nil => rfl
    | cons session ordered ih =>
      by_cases holder : before parse cutoff session = true
      · have hsome := (hone session).trans (if_pos holder)
        rw [filter_cons_of_pos holder]
        simp only [filterMap_cons, hsome, ih, map_cons]
      · have hnone := (hone session).trans (if_neg holder)
        rw [filter_cons_of_neg holder]
        simp only [filterMap_cons, hnone, ih]
  cases view with
  | none =>
    have hnone : unprotected none = fun _ => false := rfl
    rw [hnone, filter_false]
    rfl
  | some view =>
    rw [ageStep, hselect]
    refine deleteLoop_map hdistinct (fun session hsession => ?_) ?_ view
    · exact mem_sortOn.mp (mem_of_mem_filter hsession)
    · refine List.Nodup.sublist (filter_sublist.map _) ?_
      exact ((sortOn_perm _ candidates).map _).nodup_iff.mpr hdistinct

theorem countStep_eq {all : List SessionMetadata}
    (hdistinct : (all.map SessionMetadata.id).Nodup)
    (hcandidates : List.Sublist candidates all) {maxSessions : Nat} (hmax : maxSessions ≠ 0)
    (view : Option View) :
    countStep (candidateIdentity all) candidates maxSessions view =
      (((sortOn SessionMetadata.lastActivity candidates).filter (unprotected view)).take
        (candidates.length - maxSessions)).map SessionMetadata.id := by
  rw [countStep.eq_def]
  by_cases hmore : maxSessions < candidates.length
  · rw [if_pos ⟨Nat.pos_of_ne_zero hmax, hmore⟩]
    cases view with
    | none =>
      have hnone : unprotected none = fun _ => false := rfl
      rw [hnone, filter_false, take_nil]
      rfl
    | some view =>
      have hids : (candidates.map SessionMetadata.id).Nodup := hdistinct.sublist (hcandidates.map _)
      have hselect : (sortOn SessionMetadata.lastActivity candidates).filter (fun session =>
            !((candidates.filter (fun candidate => retentionProtected view candidate.id
              candidate.createdAt)).map SessionMetadata.id).contains session.id) =
          (sortOn SessionMetadata.lastActivity candidates).filter (unprotected (some view)) := by
        refine filter_congr (fun session hsession => ?_)
        show _ = !retentionProtected view session.id session.createdAt
        refine congrArg not (Bool.eq_iff_iff.mpr ?_)
        rw [contains_iff_mem, mem_map]
        constructor
        · intro ⟨other, hother, hsame⟩
          obtain ⟨hin, hprotected⟩ := mem_filter.mp hother
          rwa [eq_of_id hids hin (mem_sortOn.mp hsession) hsame] at hprotected
        · intro hprotected
          exact ⟨session, mem_filter.mpr ⟨mem_sortOn.mp hsession, hprotected⟩, rfl⟩
      show deleteLoop _ (selectCountCandidates _ _ _) view = _
      rw [selectCountCandidates, if_neg (fun h => h.elim hmax (Nat.not_le_of_lt hmore))]
      show deleteLoop _ ((List.take _ (List.filter _ _)).map _) view = _
      rw [hselect, deleteLoop_map hdistinct]
      · refine congrArg _ (filter_eq_self.mpr (fun session hsession => ?_))
        exact (mem_filter.mp (mem_of_mem_take hsession)).2
      · intro session hsession
        have hin := mem_of_mem_filter (mem_of_mem_take hsession)
        exact hcandidates.subset (mem_sortOn.mp hin)
      · refine List.Nodup.sublist (((take_sublist _ _).trans filter_sublist).map _) ?_
        exact ((sortOn_perm _ candidates).map _).nodup_iff.mpr hids
  · rw [if_neg (fun h => hmore h.2), Nat.sub_eq_zero_of_le (Nat.le_of_not_lt hmore), take_zero]
    rfl

end step

/-! ## A pass -/

section whole
variable (parse : String → Option Int) (config : RetentionConfig) (now : Int)
  (stored : Option Stored) (aged counted : Option View)

def ordered : List SessionMetadata := sortOn SessionMetadata.lastActivity (closedSessions stored)

/-- The ids that the age step deletes. -/
def expiredIds : List String :=
  if config.maxAgeDays = 0 then []
  else (((ordered stored).filter (older parse config now)).filter (unprotected aged)).map
    SessionMetadata.id

/-- The sessions that the age step leaves to the count step. -/
def leftOrdered : List SessionMetadata :=
  (ordered stored).filter (fun s => !(expiredIds parse config now stored aged).contains s.id)

/-- The unprotected ones of them, in their order. -/
def eligible : List SessionMetadata :=
  (leftOrdered parse config now stored aged).filter (unprotected counted)

/-- The ids that the count step deletes. -/
def countedIds : List String :=
  if config.maxSessions = 0 then []
  else ((eligible parse config now stored aged counted).take
    ((leftOrdered parse config now stored aged).length - config.maxSessions)).map SessionMetadata.id

variable {parse config now stored aged counted}

theorem closedSessions_distinct : ((closedSessions stored).map SessionMetadata.id).Nodup := by
  cases stored with
  | none => exact nodup_nil
  | some stored => exact stored.distinct.sublist (filter_sublist.map _)

theorem ordered_distinct : ((ordered stored).map SessionMetadata.id).Nodup :=
  ((sortOn_perm _ _).map _).nodup_iff.mpr closedSessions_distinct

theorem ordered_pairwise :
    (ordered stored).Pairwise (fun a b => a.lastActivity ≤ b.lastActivity) :=
  sortOn_pairwise SessionMetadata.lastActivity _

theorem leftOrdered_pairwise : (leftOrdered parse config now stored aged).Pairwise
    (fun a b => a.lastActivity ≤ b.lastActivity) := ordered_pairwise.filter _

theorem retentionSteps_overflows (hdays : config.maxAgeDays ≠ 0)
    (hearly : now - config.maxAgeDays.toNat * nanosPerDay < minUtc) :
    retentionSteps parse config now (ordered stored) aged counted = none := by
  have hpos : 0 < config.maxAgeDays := UInt32.pos_iff_ne_zero.mpr hdays
  rw [retentionSteps, if_pos hpos, minusDays, if_pos hearly]
  rfl

theorem retentionSteps_eq
    (h : ¬(config.maxAgeDays ≠ 0 ∧ now - config.maxAgeDays.toNat * nanosPerDay < minUtc)) :
    retentionSteps parse config now (ordered stored) aged counted =
      some ⟨expiredIds parse config now stored aged,
        countedIds parse config now stored aged counted⟩ := by
  -- the count step, after the age step
  have hcount : countStep (candidateIdentity (ordered stored))
      (leftOrdered parse config now stored aged) config.maxSessions counted =
        countedIds parse config now stored aged counted := by
    by_cases hmax : config.maxSessions = 0
    · rw [countedIds, if_pos hmax, countStep.eq_def, if_neg (fun h => Nat.ne_of_gt h.1 hmax)]
    · have hsublist : List.Sublist (leftOrdered parse config now stored aged) (ordered stored) :=
        filter_sublist
      rw [countStep_eq ordered_distinct hsublist hmax, sortOn_eq_self leftOrdered_pairwise,
        countedIds, if_neg hmax]
      rfl
  rw [retentionSteps, ← hcount, leftOrdered]
  by_cases hdays : config.maxAgeDays = 0
  · have hnone : expiredIds parse config now stored aged = [] := if_pos hdays
    have hall : (ordered stored).filter (fun s => !([] : List String).contains s.id) =
        ordered stored := filter_eq_self.mpr (fun _ _ => rfl)
    rw [hnone, hall, if_neg (fun h => UInt32.pos_iff_ne_zero.mp h hdays)]
  · have hcutoff : minusDays now config.maxAgeDays =
        some (now - config.maxAgeDays.toNat * nanosPerDay) :=
      if_neg (fun hearly => h ⟨hdays, hearly⟩)
    have hage : ageStep parse (ordered stored) (now - config.maxAgeDays.toNat * nanosPerDay) aged =
        expiredIds parse config now stored aged := by
      rw [ageStep_eq parse ordered_distinct, sortOn_eq_self ordered_pairwise, expiredIds,
        if_neg hdays]
      rfl
    rw [if_pos (UInt32.pos_iff_ne_zero.mpr hdays), hcutoff, Option.map_some, hage]

theorem pass_overflows (h : Overflows config now stored) :
    retentionCleanupOnce parse config now stored aged counted = none := by
  obtain ⟨hclosed, hdays, hearly⟩ := h
  cases stored with
  | none => exact absurd rfl hclosed
  | some stored =>
    rw [retentionCleanupOnce, if_neg (fun h => hdays h.2)]
    exact (if_neg hclosed).trans (@retentionSteps_overflows parse config now (some stored) aged
      counted hdays hearly)

theorem pass_eq (h : ¬Overflows config now stored) :
    retentionCleanupOnce parse config now stored aged counted =
      some ⟨expiredIds parse config now stored aged,
        countedIds parse config now stored aged counted⟩ := by
  have hempty (hclosed : closedSessions stored = []) :
      (⟨expiredIds parse config now stored aged,
        countedIds parse config now stored aged counted⟩ : Deleted) = ⟨[], []⟩ := by
    have hnone : ordered stored = [] := by rw [ordered, hclosed, sortOn_nil]
    simp [expiredIds, countedIds, eligible, leftOrdered, hnone]
  rw [retentionCleanupOnce.eq_def]
  by_cases hzero : config.maxSessions = 0 ∧ config.maxAgeDays = 0
  · rw [if_pos hzero, expiredIds, countedIds, if_pos hzero.1, if_pos hzero.2]
  · rw [if_neg hzero]
    cases stored with
    | none => rw [hempty rfl]
    | some stored =>
      by_cases hclosed : stored.closedSessions = []
      · rw [hempty hclosed]
        exact if_pos hclosed
      · have hsteps : retentionSteps parse config now (ordered (some stored)) aged counted = _ :=
          retentionSteps_eq (fun hearly => h ⟨hclosed, hearly⟩)
        exact (if_neg hclosed).trans hsteps

variable {session : SessionMetadata}

theorem mem_expiredIds (h : session ∈ closedSessions stored) :
    session.id ∈ expiredIds parse config now stored aged ↔ config.maxAgeDays ≠ 0 ∧
      unprotected aged session = true ∧ older parse config now session = true := by
  by_cases hdays : config.maxAgeDays = 0
  · rw [expiredIds, if_pos hdays]
    exact iff_of_false not_mem_nil (fun h => h.1 hdays)
  · rw [expiredIds, if_neg hdays, mem_map]
    constructor
    · intro ⟨other, hother, hid⟩
      obtain ⟨hin, hunprotected⟩ := mem_filter.mp hother
      obtain ⟨hin, holder⟩ := mem_filter.mp hin
      have hsame : other = session :=
        eq_of_id closedSessions_distinct (mem_sortOn.mp hin) h hid
      exact ⟨hdays, hsame ▸ hunprotected, hsame ▸ holder⟩
    · intro ⟨_, hunprotected, holder⟩
      exact ⟨session, mem_filter.mpr ⟨mem_filter.mpr ⟨mem_sortOn.mpr h, holder⟩, hunprotected⟩, rfl⟩

variable {id : String}

theorem mem_expiredIds_session (h : id ∈ expiredIds parse config now stored aged) :
    ∃ session ∈ closedSessions stored, session.id = id := by
  rw [expiredIds] at h
  split at h
  · exact absurd h not_mem_nil
  · obtain ⟨session, hsession, hid⟩ := mem_map.mp h
    have hin := mem_of_mem_filter (mem_of_mem_filter hsession)
    exact ⟨session, mem_sortOn.mp hin, hid⟩

theorem mem_leftOrdered :
    session ∈ leftOrdered parse config now stored aged ↔ session ∈ closedSessions stored ∧
      session.id ∉ expiredIds parse config now stored aged := by
  rw [leftOrdered, mem_filter, ordered, mem_sortOn, Bool.not_eq_true', contains_eq_mem,
    decide_eq_false_iff_not]

theorem leftOrdered_perm : (leftOrdered parse config now stored aged).Perm
    (left parse config now stored aged) := by
  have hsame : left parse config now stored aged = (closedSessions stored).filter
      (fun s => !(expiredIds parse config now stored aged).contains s.id) := by
    refine filter_congr (fun session hsession => congrArg not (Bool.eq_iff_iff.mpr ?_))
    rw [contains_iff_mem, mem_expiredIds hsession, Bool.and_eq_true, Bool.and_eq_true,
      decide_eq_true_iff, and_assoc]
  rw [hsame]
  exact (sortOn_perm _ _).filter _

theorem eligible_perm : (eligible parse config now stored aged counted).Perm
    ((left parse config now stored aged).filter (unprotected counted)) :=
  leftOrdered_perm.filter _

theorem eligible_pairwise : (eligible parse config now stored aged counted).Pairwise
    (fun a b => a.lastActivity ≤ b.lastActivity) := leftOrdered_pairwise.filter _

theorem eligible_distinct :
    ((eligible parse config now stored aged counted).map SessionMetadata.id).Nodup :=
  ordered_distinct.sublist ((filter_sublist.trans filter_sublist).map _)

theorem mem_eligible :
    session ∈ eligible parse config now stored aged counted ↔ (session ∈ closedSessions stored ∧
      session.id ∉ expiredIds parse config now stored aged) ∧
        unprotected counted session = true := by
  rw [eligible, mem_filter, mem_leftOrdered]

/-- How many sessions the count step is to delete. -/
abbrev excess (parse : String → Option Int) (config : RetentionConfig) (now : Int)
    (stored : Option Stored) (aged : Option View) : Nat :=
  (left parse config now stored aged).length - config.maxSessions

theorem mem_countedIds :
    id ∈ countedIds parse config now stored aged counted ↔ config.maxSessions ≠ 0 ∧
      ∃ session ∈ (eligible parse config now stored aged counted).take
        (excess parse config now stored aged), session.id = id := by
  rw [countedIds, excess, ← leftOrdered_perm.length_eq]
  split
  · next hmax => exact iff_of_false not_mem_nil (fun h => h.1 hmax)
  · next hmax =>
    rw [mem_map]
    exact (and_iff_right hmax).symm

theorem not_mem_countedIds (hmax : config.maxSessions ≠ 0)
    (h : session ∈ eligible parse config now stored aged counted) :
    session.id ∉ countedIds parse config now stored aged counted ↔
      session ∈ (eligible parse config now stored aged counted).drop
        (excess parse config now stored aged) := by
  have hdistinct : ((eligible parse config now stored aged counted).map SessionMetadata.id).Nodup :=
    eligible_distinct
  rw [mem_countedIds]
  revert h hdistinct
  generalize eligible parse config now stored aged counted = l
  intro h hdistinct
  have hsplit := take_append_drop (excess parse config now stored aged) l
  constructor
  · intro hkept
    rw [← hsplit] at h
    cases mem_append.mp h with
    | inl htaken => exact absurd ⟨hmax, session, htaken, rfl⟩ hkept
    | inr hdropped => exact hdropped
  · intro hdropped ⟨_, other, htaken, hid⟩
    have hsame : other = session :=
      eq_of_id hdistinct (mem_of_mem_take htaken) h hid
    have hnodup : l.Nodup := List.Nodup.of_map _ hdistinct
    exact disjoint_take_drop hnodup (Nat.le_refl _) (hsame ▸ htaken) hdropped

/-- The two sessions that the order of the texts misplaces are one that is deleted and one
that is kept. -/
theorem misplaced_iff (hmax : config.maxSessions ≠ 0) :
    Misplaced parse config now stored aged counted ↔
      ∃ a ∈ (eligible parse config now stored aged counted).take
          (excess parse config now stored aged),
        ∃ b ∈ (eligible parse config now stored aged counted).drop
          (excess parse config now stored aged), LaterThan parse a b := by
  have hmem (session : SessionMetadata) := (@eligible_perm parse config now stored aged
    counted).mem_iff (a := session)
  have hcount (p : SessionMetadata → Bool) := (@eligible_perm parse config now stored aged
    counted).countP_eq p
  constructor
  · intro ⟨_, a, ha, b, hb, hlater, hfirst, hlast⟩
    rw [← hcount] at hfirst hlast
    obtain ⟨a', ha', hsame⟩ := (key_mem_take eligible_pairwise _ a.lastActivity).mpr
      ⟨⟨a, (hmem a).mpr ha, rfl⟩, hfirst⟩
    obtain ⟨b', hb', hsame'⟩ := (key_mem_drop eligible_pairwise _ b.lastActivity).mpr
      ⟨⟨b, (hmem b).mpr hb, rfl⟩, hlast⟩
    refine ⟨a', ha', b', hb', ?_⟩
    rw [LaterThan, hsame, hsame']
    exact hlater
  · intro ⟨a, ha, b, hb, hlater⟩
    have hfirst := ((key_mem_take eligible_pairwise _ a.lastActivity).mp ⟨a, ha, rfl⟩).2
    have hlast := ((key_mem_drop eligible_pairwise _ b.lastActivity).mp ⟨b, hb, rfl⟩).2
    rw [hcount] at hfirst hlast
    exact ⟨hmax, a, (hmem a).mp (mem_of_mem_take ha), b,
      (hmem b).mp (mem_of_mem_drop hb), hlater, hfirst, hlast⟩

/-- The ids that the two steps delete are those asked for, exactly where no two sessions are
misplaced. -/
theorem exact_iff :
    Exact parse config now stored aged counted ⟨expiredIds parse config now stored aged,
        countedIds parse config now stored aged counted⟩ ↔
      ¬Misplaced parse config now stored aged counted := by
  constructor
  · intro hexact hmisplaced
    have hmax : config.maxSessions ≠ 0 := hmisplaced.1
    obtain ⟨a, ha, b, hb, hlater⟩ := (misplaced_iff hmax).mp hmisplaced
    obtain ⟨⟨hain, -⟩, -⟩ := mem_eligible.mp (mem_of_mem_take ha)
    have hbin := mem_eligible.mp (mem_of_mem_drop hb)
    exact hexact.oldest a hain b hbin.1.1 (mem_countedIds.mpr ⟨hmax, a, ha, rfl⟩) hbin.1.2
      ((not_mem_countedIds hmax (mem_of_mem_drop hb)).mpr hb) hbin.2 hlater
  · intro hplaced
    constructor
    · intro id
      constructor
      · intro hid
        obtain ⟨session, hsession, hsame⟩ := mem_expiredIds_session hid
        obtain ⟨hdays, hunprotected, holder⟩ := (mem_expiredIds hsession).mp (hsame ▸ hid)
        exact ⟨hdays, session, hsession, hsame, hunprotected, holder⟩
      · intro ⟨hdays, session, hsession, hsame, hunprotected, holder⟩
        exact hsame ▸ (mem_expiredIds hsession).mpr ⟨hdays, hunprotected, holder⟩
    · exact fun hmax => if_pos hmax
    · show (countedIds parse config now stored aged counted).Nodup
      rw [countedIds]
      split
      · exact nodup_nil
      · exact eligible_distinct.sublist ((take_sublist _ _).map _)
    · intro id hid
      obtain ⟨hmax, session, hsession, hsame⟩ := mem_countedIds.mp hid
      obtain ⟨⟨hin, hleft⟩, hunprotected⟩ := mem_eligible.mp (mem_of_mem_take hsession)
      exact ⟨session, hin, hsame, hsame ▸ hleft, hunprotected⟩
    · intro hmax
      have hperm := @leftOrdered_perm parse config now stored aged
      have hleft : ((closedSessions stored).filter (fun session =>
          session.id ∉ expiredIds parse config now stored aged)).Perm
            (leftOrdered parse config now stored aged) := by
        refine List.Perm.trans (List.Perm.of_eq ?_) ((sortOn_perm _ _).filter _).symm
        refine filter_congr (fun session _ => ?_)
        rw [contains_eq_mem, decide_not]
      show (countedIds parse config now stored aged counted).length = _
      rw [countedIds, if_neg hmax, length_map, length_take, hleft.length_eq,
        hleft.countP_eq, eligible, countP_eq_length_filter]
    · intro a ha b hb hdeleted hleft hkept hunprotected hlater
      obtain ⟨hmax, first, hfirst, hsame⟩ := mem_countedIds.mp hdeleted
      have hin := mem_eligible.mp (mem_of_mem_take hfirst)
      have hfirst' : first = a := eq_of_id closedSessions_distinct hin.1.1 ha hsame
      have hbin := mem_eligible.mpr ⟨⟨hb, hleft⟩, hunprotected⟩
      have hlast := (not_mem_countedIds hmax hbin).mp hkept
      exact hplaced ((misplaced_iff hmax).mpr ⟨a, hfirst' ▸ hfirst, b, hlast, hlater⟩)

end whole

/-- A pass returns and deletes what the configuration asks for exactly where the age does not
reach before the first instant of a `DateTime` and no two sessions are misplaced. -/
theorem retentionCleanupOnce_exact (parse : String → Option Int) (request : RetentionConfig)
    (now : Int) (stored : Option Stored) (aged counted : Option View) :
    (∃ deleted, retentionCleanupOnce parse (setRetention request) now stored aged counted =
        some deleted ∧ Exact parse (setRetention request) now stored aged counted deleted) ↔
      ¬Overflows (setRetention request) now stored ∧
        ¬Misplaced parse (setRetention request) now stored aged counted := by
  by_cases hoverflows : Overflows (setRetention request) now stored
  · rw [pass_overflows hoverflows]
    exact iff_of_false (fun ⟨_, h, _⟩ => Option.some_ne_none _ h.symm) (fun h => h.1 hoverflows)
  · rw [pass_eq hoverflows, and_iff_right hoverflows, ← exact_iff]
    constructor
    · intro ⟨deleted, hdeleted, hexact⟩
      exact Option.some.inj hdeleted ▸ hexact
    · exact fun hexact => ⟨_, rfl, hexact⟩

/-! ## Two passes that go wrong -/

/-- A closed session. -/
def ended (id lastActivity : String) : SessionMetadata :=
  ⟨id, "2024-01-01T00:00:00Z", lastActivity, "ended", "dead"⟩

/-- The first of the two is an hour older, and after the other as a text. -/
def endedSessions : List SessionMetadata :=
  [ended "a" "2024-01-01T09:00:00+09:00", ended "b" "2024-01-01T01:00:00+00:00"]

def endedStored : Stored where
  sessions := endedSessions
  distinct := by decide
  organization := fun _ => .ok none

def endedView : View where
  organization := fun _ => .ok none
  pending := fun _ => false
  hasPid := fun _ => false
  handle := fun _ => none
  file := fun id => endedSessions.find? (fun session => session.id == id)

/-- RFC 3339 at the two texts. -/
def endedTime (text : String) : Option Int :=
  if text = "2024-01-01T09:00:00+09:00" then some 1704067200000000000
  else if text = "2024-01-01T01:00:00+00:00" then some 1704070800000000000
  else none

theorem endedStored_misplaced : Misplaced endedTime (setRetention ⟨1, 0⟩) 1704153600000000000
    (some endedStored) (some endedView) (some endedView) := by
  have hleft : left endedTime (setRetention ⟨1, 0⟩) 1704153600000000000 (some endedStored)
      (some endedView) = endedSessions := by decide
  have heligible : endedSessions.filter (unprotected (some endedView)) = endedSessions := by decide
  rw [Misplaced, hleft, heligible]
  refine ⟨by decide, ended "b" "2024-01-01T01:00:00+00:00", by decide,
    ended "a" "2024-01-01T09:00:00+09:00", by decide,
    ⟨1704070800000000000, 1704067200000000000, by decide, by decide, by decide⟩, ?_, ?_⟩
  · decide +kernel
  · decide +kernel

/-- The largest age that is accepted reaches before the first instant, and the pass panics;
with one session too many, the pass deletes the younger one. -/
theorem retentionCleanupOnce_wrong :
    (¬∃ deleted, retentionCleanupOnce endedTime (setRetention ⟨0, 4294967295⟩)
        1704153600000000000 (some endedStored) (some endedView) (some endedView) = some deleted ∧
      Exact endedTime (setRetention ⟨0, 4294967295⟩) 1704153600000000000 (some endedStored)
        (some endedView) (some endedView) deleted) ∧
    ¬∃ deleted, retentionCleanupOnce endedTime (setRetention ⟨1, 0⟩) 1704153600000000000
        (some endedStored) (some endedView) (some endedView) = some deleted ∧
      Exact endedTime (setRetention ⟨1, 0⟩) 1704153600000000000 (some endedStored)
        (some endedView) (some endedView) deleted := by
  constructor
  · intro ⟨deleted, hdeleted, _⟩
    have hoverflows : Overflows (setRetention ⟨0, 4294967295⟩) 1704153600000000000
        (some endedStored) := ⟨by decide, by decide, by decide⟩
    rw [pass_overflows hoverflows] at hdeleted
    cases hdeleted
  · intro ⟨deleted, hdeleted, hexact⟩
    have hroom : ¬Overflows (setRetention ⟨1, 0⟩) 1704153600000000000 (some endedStored) :=
      fun h => h.2.1 rfl
    rw [pass_eq hroom] at hdeleted
    exact exact_iff.mp (Option.some.inj hdeleted ▸ hexact) endedStored_misplaced

end Orkworksd.Runtime.Retention
