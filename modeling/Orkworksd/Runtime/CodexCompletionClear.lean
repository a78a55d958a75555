import Orkworksd.Runtime.CodexCompletion

/- Completion clears of the Codex tracker are earned.

   What the tracker may rely on is stated about the event stream alone: `Serial` says
   that the events since a submission have its root and turn, contiguous sequence
   numbers and increasing times, and follow the order Pre, at most one Permission, Post.
   `event_cases` says once what an event does to the tracker; `Baseline` ties an active
   tracker to the events since the latest submission, and `Fresh` ties the candidates
   handed out so far to the epoch and the records.

   Main result: `completion_clears_earned`. -/
namespace Orkworksd.CodexCompletion
open Tracker List

variable {e : Event} {clean : Bool}

/-! ## The event stream -/

/-- The order of hooks since the submission: `recent` are the events so far, newest
first, and the event comes next. -/
inductive Order : List Event → Event → Prop where
  | pre {recent : List Event} {e : Event} {id tool : String} : e.hook = .pre →
      e.invocation = some id → e.tool = some tool → (∀ x ∈ recent, x.invocation ≠ some id) →
      (∀ p, recent.head? = some p → p.hook = .post) → Order recent e
  | permission {p : Event} {rest : List Event} {e : Event} : e.hook = .permission →
      p.hook = .pre → e.tool = p.tool → (e.invocation = none ∨ e.invocation = p.invocation) →
      Order (p :: rest) e
  | post {p : Event} {rest : List Event} {e : Event} : e.hook = .post → p.hook = .pre →
      e.tool = p.tool → e.invocation = p.invocation → Order (p :: rest) e
  | clear {q p : Event} {rest : List Event} {e : Event} : e.hook = .post →
      q.hook = .permission → p.hook = .pre → e.tool = p.tool → e.invocation = p.invocation →
      Order (q :: p :: rest) e

/-- The event continues the events since the submission. -/
structure Fits (submission : Event) (recent : List Event) (e : Event) : Prop where
  generation : e.generation = submission.generation
  root : e.root = submission.root
  turn : e.turn = submission.turn
  sequence : e.sequence = (recent.head?.getD submission).sequence + 1
  time : (recent.head?.getD submission).observedMicros < e.observedMicros
  order : Order recent e

/-- The events since the submission, newest first, each continue the ones before. -/
def Serial (submission : Event) : List Event → Prop
  | [] => True
  | e :: recent => Fits submission recent e ∧ Serial submission recent

/-- The records the events since the submission leave behind. -/
def recordsOf : List Event → List Invocation
  | [] => []
  | e :: recent =>
    if e.hook = .pre then
      recordsOf recent ++
        [{ id := e.invocation.getD "", tool := e.tool.getD "", completed := false }]
    else if e.hook = .post then (recordsOf recent).map Invocation.complete
    else recordsOf recent

section recordsOf
variable {submission e : Event} {recent : List Event}

theorem recordsOf_pre (h : e.hook = .pre) : recordsOf (e :: recent) = recordsOf recent ++
    [{ id := e.invocation.getD "", tool := e.tool.getD "", completed := false }] :=
  if_pos h

theorem recordsOf_post (h : e.hook = .post) :
    recordsOf (e :: recent) = (recordsOf recent).map Invocation.complete := by
  rw [recordsOf, h, if_neg (by decide), if_pos rfl]

theorem recordsOf_permission (h : e.hook = .permission) :
    recordsOf (e :: recent) = recordsOf recent := by
  rw [recordsOf, h, if_neg (by decide), if_neg (by decide)]

theorem recordsOf_completed (hhead : ∀ p, recent.head? = some p → p.hook = .post)
    {r : Invocation} (hr : r ∈ recordsOf recent) : r.completed = true := by
  cases recent with
  | nil => cases hr
  | cons p rest =>
    rw [recordsOf_post (hhead p rfl)] at hr
    obtain ⟨r', -, rfl⟩ := mem_map.mp hr
    rfl

theorem Serial.running {p : Event} {rest : List Event} (h : Serial submission (p :: rest))
    (hp : p.hook = .pre) : ∃ id tool, p.invocation = some id ∧ p.tool = some tool ∧
      (∀ x ∈ rest, x.invocation ≠ some id) ∧ (∀ r ∈ recordsOf rest, r.completed = true) ∧
      recordsOf (p :: rest) = recordsOf rest ++ [⟨id, tool, false⟩] := by
  cases h.1.order with
  | pre hook hid htool hfresh hhead =>
    rename_i id tool
    refine ⟨id, tool, hid, htool, hfresh, fun r hr => recordsOf_completed hhead hr, ?_⟩
    rw [recordsOf_pre hp, hid, htool]
    rfl
  | permission hook => rw [hp] at hook; cases hook
  | post hook => rw [hp] at hook; cases hook
  | clear hook => rw [hp] at hook; cases hook

theorem Serial.used (h : Serial submission recent) {x : Event} (hx : x ∈ recent) {id : String}
    (hid : x.invocation = some id) : ∃ r ∈ recordsOf recent, r.id = id := by
  induction recent generalizing x with
  | nil => cases hx
  | cons e recent ih =>
    -- An earlier event's record is still there, maybe completed.
    have hkept : (∃ r ∈ recordsOf recent, r.id = id) →
        ∃ r ∈ recordsOf (e :: recent), r.id = id := by
      intro ⟨r, hr, hrid⟩
      by_cases hpre : e.hook = .pre
      · rw [recordsOf_pre hpre]
        exact ⟨r, mem_append_left _ hr, hrid⟩
      · by_cases hpost : e.hook = .post
        · rw [recordsOf_post hpost]
          exact ⟨r.complete, mem_map_of_mem hr, hrid⟩
        · rw [recordsOf, if_neg hpre, if_neg hpost]
          exact ⟨r, hr, hrid⟩
    have hearlier : ∀ y ∈ recent, y.invocation = some id →
        ∃ r ∈ recordsOf (e :: recent), r.id = id := by
      intro y hy hyid
      exact hkept (ih h.2 hy hyid)
    rcases mem_cons.mp hx with rfl | hx
    · cases h.1.order with
      | pre hook hid' =>
        rw [hid] at hid'
        rw [recordsOf_pre hook, hid]
        exact ⟨_, mem_append_right _ mem_cons_self, rfl⟩
      | permission hook hp htool hnamed =>
        rename_i p rest
        rcases hnamed with hnone | hsame
        · rw [hnone] at hid
          cases hid
        · exact hearlier p mem_cons_self (hsame ▸ hid)
      | post hook hp htool hsame =>
        rename_i p rest
        exact hearlier p mem_cons_self (hsame ▸ hid)
      | clear hook hq hp htool hsame =>
        rename_i q p rest
        exact hearlier p (mem_cons_of_mem q mem_cons_self) (hsame ▸ hid)
    · exact hearlier x hx hid

end recordsOf

/-! ## What an event does -/

/-- The epoch has moved on, or run out. -/
def LaterEpoch (t t' : Tracker) : Prop :=
  ∀ n, t'.epoch = some n → ∃ m, t.epoch = some m ∧ m < n

/-- The tracker has no baseline: it had none and stays, or it was invalidated. -/
structure Lost (t t' : Tracker) : Prop where
  inactive : t'.active = false
  issued : t'.issued = none
  epoch : (t.active = false ∧ t'.epoch = t.epoch) ∨ LaterEpoch t t'

/-- A clean submission starts a new baseline in a new epoch. -/
structure Begun (t : Tracker) (e : Event) (t' : Tracker) : Prop where
  active : t'.active = true
  root : t'.root = e.root
  turn : t'.turn = e.turn
  cursor : t'.cursor = some (e.sequence, e.observedMicros)
  records : t'.records = []
  pending : t'.pending = none
  issued : t'.issued = none
  started : t'.epoch.isSome = true
  epoch : LaterEpoch t t'

/-- The event is next in the stream of an active tracker. -/
structure Admitted (t : Tracker) (e : Event) : Prop where
  active : t.active = true
  issued : t.issued = none
  generation : e.generation = t.generation
  root : e.root = t.root
  turn : e.turn = t.turn
  cursor : ∃ cursor, t.cursor = some cursor ∧ e.sequence = cursor.1 + 1 ∧
    cursor.2 < e.observedMicros

/-- `self.cursor = Some(..)`. -/
def Tracker.moved (t : Tracker) (e : Event) : Tracker :=
  { t with cursor := some (e.sequence, e.observedMicros) }

/-- Everything an event can do to a tracker, and the effect it returns. -/
inductive Move (t : Tracker) (e : Event) (clean : Bool) : Tracker → Option Effect → Prop where
  | lost {t' : Tracker} : Lost t t' → Move t e clean t' none
  | begun {t' : Tracker} : e.hook = .submitted → clean = true → e.generation = t.generation →
      Begun t e t' → Move t e clean t' none
  | pre {id tool : String} : Admitted t e → e.hook = .pre → e.invocation = some id →
      e.tool = some tool → t.pending = none →
      (∀ r ∈ t.records, r.completed = true ∧ r.id ≠ id) →
      Move t e clean { t.moved e with records := t.records ++ [⟨id, tool, false⟩] } none
  | permission {index epoch : Nat} {record : Invocation} : Admitted t e →
      e.hook = .permission → t.records.findIdx? (fun r => !r.completed) = some index →
      t.records[index]? = some record → e.tool = some record.tool →
      (e.invocation = none ∨ e.invocation = some record.id) → t.pending = none →
      t.epoch = some epoch →
      Move t e clean { t.moved e with
        pending := some ⟨t.identity, epoch, index⟩
        bound := false
        issued := some (.bindWait ⟨t.identity, epoch, index⟩) }
        (some (.bindWait ⟨t.identity, epoch, index⟩))
  | post {index : Nat} {record : Invocation} : Admitted t e → e.hook = .post →
      t.records[index]? = some record → record.completed = false →
      e.invocation = some record.id → e.tool = some record.tool → t.pending = none →
      Move t e clean ((t.moved e).completeRecord index) none
  | clear {index : Nat} {record : Invocation} {c : Candidate} : Admitted t e →
      e.hook = .post → t.records[index]? = some record → record.completed = false →
      e.invocation = some record.id → e.tool = some record.tool → t.pending = some c →
      c.invocation = index → t.bound = true →
      Move t e clean { (t.moved e).completeRecord index with issued := some (.clearWait c) }
        (some (.clearWait c))

variable {t' : Tracker}

section moves
variable {t : Tracker} {e : Event} {clean : Bool}

theorem checkedSucc_eq_some {m n : Nat} (h : checkedSucc m = some n) : n = m + 1 := by
  unfold checkedSucc at h
  split at h
  · exact (Option.some.inj h).symm
  · cases h

theorem laterEpoch_invalidate (t : Tracker) : LaterEpoch t t.invalidate := by
  intro n hn
  obtain ⟨m, hm, hsucc⟩ := Option.bind_eq_some_iff.mp hn
  exact ⟨m, hm, by rw [checkedSucc_eq_some hsucc]; exact Nat.lt_succ_self m⟩

theorem LaterEpoch.trans {t'' : Tracker} (h : LaterEpoch t t') (h' : LaterEpoch t' t'') :
    LaterEpoch t t'' := by
  intro n hn
  obtain ⟨m, hm, hlt⟩ := h' n hn
  obtain ⟨k, hk, hlt'⟩ := h m hm
  exact ⟨k, hk, Nat.lt_trans hlt' hlt⟩

theorem lost_invalidate (t : Tracker) : Lost t t.invalidate :=
  ⟨rfl, rfl, .inr (laterEpoch_invalidate t)⟩

variable {q : Tracker}

theorem lost_of_later (h : q.epoch = t.epoch) : Lost t q.invalidate := by
  refine ⟨rfl, rfl, .inr ?_⟩
  intro n hn
  rw [← h]
  exact laterEpoch_invalidate q n hn

theorem filter_bounded {o : Option String} {x : String} (h : o.filter bounded = some x) :
    o = some x :=
  (Option.filter_eq_some_iff.mp h).1

variable {o : Option Effect}

theorem move_none (ho : o = none) (h : Move t e clean q none) : Move t e clean q o := by
  rw [ho]
  exact h

variable {tool : String}

theorem move_pre (h : Admitted t e) (hook : e.hook = .pre) (htool : e.tool = some tool) :
    Move t e clean ((t.moved e).pre tool (e.invocation.filter bounded)).1
      ((t.moved e).pre tool (e.invocation.filter bounded)).2 := by
  unfold pre
  split
  · exact .lost (lost_of_later rfl)
  · rename_i id hid
    split
    · exact .lost (lost_of_later rfl)
    · rename_i hok
      simp only [Bool.or_eq_true, decide_eq_true_eq, not_or] at hok
      obtain ⟨⟨-, hpending⟩, hrecords⟩ := hok
      refine move_none (q := { t.moved e with records := _ }) h.issued ?_
      have hpending' : t.pending = none := Option.not_isSome_iff_eq_none.mp hpending
      refine .pre h hook (filter_bounded hid) htool hpending' ?_
      intro r hr
      have hr' := mt (fun hbad => any_eq_true.mpr ⟨r, hr, hbad⟩) hrecords
      simpa using hr'

theorem move_permission (h : Admitted t e) (hepoch : t.epoch.isSome = true)
    (hook : e.hook = .permission) (htool : e.tool = some tool) : Move t e clean
      ((t.moved e).permission tool e.invocation (e.invocation.filter bounded)).1
      ((t.moved e).permission tool e.invocation (e.invocation.filter bounded)).2 := by
  unfold permission
  split
  · exact .lost (lost_of_later rfl)
  · rename_i index hindex
    obtain ⟨hlt, -⟩ := List.findIdx?_eq_some_iff_getElem.mp hindex
    have hrecord : t.records[index]? = some (t.records.get ⟨index, hlt⟩) :=
      List.getElem?_eq_getElem hlt
    generalize t.records.get ⟨index, hlt⟩ = record at hrecord
    split
    · exact .lost (lost_of_later rfl)
    · rename_i hok
      have hrecord' : (t.moved e).records[index]? = some record := hrecord
      rw [hrecord'] at hok
      simp only [Bool.or_eq_true, Option.any_some, Bool.and_eq_true, bne_iff_ne, ne_eq,
        not_or, not_and, Decidable.not_not] at hok
      obtain ⟨hpending, htool', hnamed⟩ := hok
      split
      · rename_i hnone
        have hnone' : t.epoch = none := hnone
        rw [hnone'] at hepoch
        cases hepoch
      · rename_i epoch hsome
        have hpending' : t.pending = none := Option.not_isSome_iff_eq_none.mp hpending
        refine .permission h hook hindex hrecord (by rw [htool, htool']) ?_ hpending' hsome
        cases hinv : e.invocation with
        | none => exact .inl rfl
        | some id =>
          rw [hinv] at hnamed
          exact .inr (filter_bounded (hnamed rfl))

theorem move_post (h : Admitted t e) (hook : e.hook = .post) (htool : e.tool = some tool) :
    Move t e clean ((t.moved e).post tool (e.invocation.filter bounded)).1
      ((t.moved e).post tool (e.invocation.filter bounded)).2 := by
  unfold post
  split
  · exact .lost (lost_of_later rfl)
  · rename_i id hid
    split
    · exact .lost (lost_of_later rfl)
    · rename_i index hindex
      obtain ⟨hlt, hpred, -⟩ := List.findIdx?_eq_some_iff_getElem.mp hindex
      have hrecord : t.records[index]? = some (t.records.get ⟨index, hlt⟩) :=
        List.getElem?_eq_getElem hlt
      have hsame : (t.records.get ⟨index, hlt⟩).id = id := beq_iff_eq.mp hpred
      generalize t.records.get ⟨index, hlt⟩ = record at hrecord hsame
      have hrecord' : (t.moved e).records[index]? = some record := hrecord
      split
      · exact .lost (lost_of_later rfl)
      · rename_i hok
        rw [hrecord'] at hok
        simp only [Option.any_some, Bool.or_eq_true, bne_iff_ne, ne_eq, not_or,
          Decidable.not_not, Bool.not_eq_true] at hok
        have hinv : e.invocation = some record.id := by rw [hsame]; exact filter_bounded hid
        have htool' : e.tool = some record.tool := by rw [hok.2]; exact htool
        simp only
        split
        · rename_i c hpending
          split
          · exact .lost (lost_of_later rfl)
          · rename_i hbound
            simp only [Bool.or_eq_true, bne_iff_ne, ne_eq, not_or, Decidable.not_not,
              Bool.not_eq_true', Bool.not_eq_false] at hbound
            exact .clear h hook hrecord hok.1 hinv htool' hpending hbound.1 hbound.2
        · rename_i hpending
          exact move_none (q := (t.moved e).completeRecord index) h.issued
            (.post h hook hrecord hok.1 hinv htool' hpending)

theorem move_dispatch (h : Admitted t e) (hepoch : t.epoch.isSome = true)
    (hsubmitted : e.hook ≠ .submitted) (hstop : e.hook ≠ .stop) (htool : e.tool = some tool) :
    Move t e clean ((t.moved e).dispatch e tool).1 ((t.moved e).dispatch e tool).2 := by
  unfold dispatch
  split
  · rename_i hook
    exact move_pre h hook htool
  · rename_i hook
    exact move_permission h hepoch hook htool
  · rename_i hook
    exact move_post h hook htool
  · rename_i hook
    exact absurd hook hsubmitted
  · rename_i hook
    exact absurd hook hstop

theorem move_submitted (hook : e.hook = .submitted) (hgen : e.generation = t.generation) :
    Move t e clean ((t.moved e).submitted e clean) none := by
  unfold submitted
  simp only
  split
  · rename_i hclean
    obtain ⟨hclean, hsome⟩ := Bool.and_eq_true_iff.mp hclean
    exact .begun hook hclean hgen ⟨rfl, rfl, rfl, rfl, rfl, rfl, rfl, hsome,
      laterEpoch_invalidate (t.moved e)⟩
  · exact .lost (lost_of_later rfl)

theorem move_follow (hissued : t.issued = none) (hepoch : t.active = true → t.epoch.isSome = true)
    (hgen : e.generation = t.generation) (hordered : t.ordered e = true) :
    Move t e clean (t.follow e clean).1 (t.follow e clean).2 := by
  unfold follow
  simp only
  split
  · rename_i hook
    exact move_submitted hook hgen
  · rename_i hsubmitted
    split
    · exact .lost (lost_of_later rfl)
    · rename_i hnext
      simp only [Bool.or_eq_true, decide_eq_true_eq, bne_iff_ne, ne_eq, not_or,
        Decidable.not_not, Bool.not_eq_true', Bool.not_eq_false] at hnext
      obtain ⟨⟨⟨hstop, hcontiguous⟩, hroot⟩, hturn⟩ := hnext
      split
      · rename_i hinactive
        have hinactive' : t.active = false := Bool.not_eq_true' _ ▸ hinactive
        exact .lost ⟨hinactive', hissued, .inl ⟨hinactive', rfl⟩⟩
      · rename_i hactive
        have hactive' : t.active = true := by simpa using hactive
        obtain ⟨cursor, hcursor, hseq⟩ := (Option.any_eq_true _ _).mp hcontiguous
        have htime : cursor.2 < e.observedMicros := by
          unfold ordered at hordered
          rw [hcursor] at hordered
          simp only [Option.all_some, Bool.and_eq_true, decide_eq_true_eq] at hordered
          exact hordered.2
        have hadmitted : Admitted t e := ⟨hactive', hissued, hgen, hroot, hturn,
          cursor, hcursor, checkedSucc_eq_some (beq_iff_eq.mp hseq), htime⟩
        split
        · exact .lost (lost_of_later rfl)
        · rename_i tool htool
          exact move_dispatch hadmitted (hepoch hactive') hsubmitted hstop (filter_bounded htool)

theorem Move.of_invalidated (h : Move t.invalidate e clean t' o) :
    Move t e clean t' o := by
  cases h with
  | lost hlost =>
    refine .lost ⟨hlost.inactive, hlost.issued, .inr ?_⟩
    rcases hlost.epoch with ⟨-, hsame⟩ | hlater
    · intro n hn
      exact laterEpoch_invalidate t n (hsame ▸ hn)
    · exact (laterEpoch_invalidate t).trans hlater
  | begun hook hclean hgen hbegun =>
    exact .begun hook hclean hgen { hbegun with
      epoch := (laterEpoch_invalidate t).trans hbegun.epoch }
  | pre hadmitted => cases hadmitted.active
  | permission hadmitted => cases hadmitted.active
  | post hadmitted => cases hadmitted.active
  | clear hadmitted => cases hadmitted.active

theorem event_cases (t : Tracker) (hepoch : t.active = true → t.epoch.isSome = true) (e : Event)
    (clean : Bool) : Move t e clean (t.event e clean).1 (t.event e clean).2 := by
  -- the body of `event` after its first statement
  have hbody : ∀ q : Tracker, q.issued = none → (q.active = true → q.epoch.isSome = true) →
      Move q e clean
        (if e.generation != q.generation || !bounded e.root || !bounded e.turn then
            (q.invalidate, none)
          else if !q.ordered e then (q.invalidate, none) else q.follow e clean).1
        (if e.generation != q.generation || !bounded e.root || !bounded e.turn then
            (q.invalidate, none)
          else if !q.ordered e then (q.invalidate, none) else q.follow e clean).2 := by
    intro q hissued hq
    split
    · exact .lost (lost_invalidate q)
    · rename_i hgen
      simp only [Bool.or_eq_true, bne_iff_ne, ne_eq, not_or, Decidable.not_not] at hgen
      split
      · exact .lost (lost_invalidate q)
      · rename_i hordered
        exact move_follow hissued hq hgen.1.1 (by simpa using hordered)
  unfold event
  simp only
  cases hissued : t.issued with
  | none => exact hbody t hissued hepoch
  | some effect => exact (hbody t.invalidate rfl (fun h => nomatch h)).of_invalidated

end moves

/-! ## The baseline -/

variable {t : Tracker}

section baseline
variable {identity generation : Nat} {calls : List Call}

variable {submission : Event} {recent : List Event}

/-- The event returned `BindWait(c)` in the run, in the epoch of `c`. -/
def Offered (identity generation : Nat) (calls : List Call) (e : Event) (c : Candidate) :
    Prop :=
  ∃ newer clean older, calls = newer ++ .event e clean :: older ∧
    (after identity generation older).returns (.event e clean) = some (.bindWait c) ∧
    (after identity generation (.event e clean :: older)).epoch = some c.epoch

/-- The event returned `BindWait(c)` and the effect was acknowledged later, both in the
epoch of `c`. -/
def Bound (identity generation : Nat) (calls : List Call) (e : Event) (c : Candidate) : Prop :=
  ∃ newer call older, calls = newer ++ call :: older ∧ Offered identity generation older e c ∧
    (after identity generation older).acknowledges call = some (.bindWait c) ∧
    (after identity generation (call :: older)).epoch = some c.epoch

theorem Offered.cons {e : Event} {c : Candidate} (h : Offered identity generation calls e c)
    (call : Call) : Offered identity generation (call :: calls) e c := by
  obtain ⟨newer, clean, older, rfl, hreturned, hepoch⟩ := h
  exact ⟨call :: newer, clean, older, rfl, hreturned, hepoch⟩

theorem Bound.cons {e : Event} {c : Candidate} (h : Bound identity generation calls e c)
    (call : Call) : Bound identity generation (call :: calls) e c := by
  obtain ⟨newer, ack, older, rfl, hoffered, hacked, hepoch⟩ := h
  exact ⟨call :: newer, ack, older, rfl, hoffered, hacked, hepoch⟩

/-- Where in an invocation an active tracker is: `recent` are the events since the
submission, newest first. -/
inductive Phase (identity generation : Nat) (calls : List Call) (t : Tracker) :
    List Event → Prop where
  | idle {recent : List Event} : (∀ p, recent.head? = some p → p.hook = .post) →
      t.pending = none → t.issued = none → Phase identity generation calls t recent
  | running {p : Event} {rest : List Event} : p.hook = .pre → t.pending = none →
      t.issued = none → Phase identity generation calls t (p :: rest)
  | asked {q p : Event} {rest : List Event} {c : Candidate} : q.hook = .permission →
      p.hook = .pre → t.pending = some c → t.epoch = some c.epoch → t.bound = false →
      t.issued = some (.bindWait c) → Offered identity generation calls q c →
      Phase identity generation calls t (q :: p :: rest)
  | bound {q p : Event} {rest : List Event} {c : Candidate} : q.hook = .permission →
      p.hook = .pre → t.pending = some c → t.epoch = some c.epoch →
      t.issued = none → Bound identity generation calls q c →
      Phase identity generation calls t (q :: p :: rest)
  | cleared {o q p : Event} {rest : List Event} {c : Candidate} : o.hook = .post →
      q.hook = .permission → p.hook = .pre → t.pending = some c → t.epoch = some c.epoch →
      t.issued = some (.clearWait c) → Bound identity generation calls q c →
      Phase identity generation calls t (o :: q :: p :: rest)

/-- An active tracker and the events since the latest submission. -/
structure Baseline (identity generation : Nat) (calls : List Call) (t : Tracker)
    (submission : Event) (recent : List Event) : Prop where
  stream : ∃ flagged older, events calls = flagged ++ (submission, true) :: older ∧
    recent = flagged.map Prod.fst
  hook : submission.hook = .submitted
  launched : submission.generation = generation
  serial : Serial submission recent
  root : t.root = submission.root
  turn : t.turn = submission.turn
  cursor : t.cursor = some ((recent.head?.getD submission).sequence,
    (recent.head?.getD submission).observedMicros)
  records : t.records = recordsOf recent
  epoch : t.epoch.isSome = true
  phase : Phase identity generation calls t recent

theorem Phase.cons {t : Tracker} {recent : List Event}
    (h : Phase identity generation calls t recent) (call : Call) :
    Phase identity generation (call :: calls) t recent := by
  cases h with
  | idle hhead hpending hissued => exact .idle hhead hpending hissued
  | running hp hpending hissued => exact .running hp hpending hissued
  | asked hq hp hpending hepoch hbound hissued hoffered =>
    exact .asked hq hp hpending hepoch hbound hissued (hoffered.cons call)
  | bound hq hp hpending hepoch hissued hbound =>
    exact .bound hq hp hpending hepoch hissued (hbound.cons call)
  | cleared ho hq hp hpending hepoch hissued hbound =>
    exact .cleared ho hq hp hpending hepoch hissued (hbound.cons call)

variable {r : Invocation}

theorem Invocation.complete_self (h : r.completed = true) : r.complete = r := by
  cases r
  cases h
  rfl

variable {index : Nat}

theorem complete_open {records : List Invocation}
    (h : ∀ j r, j ≠ index → records[j]? = some r → r.completed = true) :
    records.modify index Invocation.complete = records.map Invocation.complete := by
  apply ext_getElem?
  intro j
  rw [List.getElem?_map]
  by_cases hj : index = j
  · rw [← hj, List.getElem?_modify_eq]
    rfl
  · rw [List.getElem?_modify_ne _ _ hj]
    cases hget : records[j]? with
    | none => rfl
    | some r =>
      have hself := Invocation.complete_self (h j r (fun heq => hj heq.symm) hget)
      exact congrArg some hself.symm

theorem open_record {p : Event} {rest : List Event} (h : Serial submission (p :: rest))
    (hp : p.hook = .pre) {record : Invocation}
    (hget : (recordsOf (p :: rest))[index]? = some record) (hopen : record.completed = false) :
    p.invocation = some record.id ∧ p.tool = some record.tool ∧
      (recordsOf (p :: rest)).modify index Invocation.complete =
        (recordsOf (p :: rest)).map Invocation.complete := by
  obtain ⟨id, tool, hid, htool, -, hdone, heq⟩ := h.running hp
  have hlast : ∀ j r, (recordsOf (p :: rest))[j]? = some r →
      r.completed = true ∨ (j = (recordsOf rest).length ∧ r = ⟨id, tool, false⟩) := by
    intro j r hr
    rw [heq] at hr
    rcases Nat.lt_or_ge j (recordsOf rest).length with hlt | hge
    · rw [List.getElem?_append_left hlt] at hr
      exact .inl (hdone r (mem_of_getElem? hr))
    · rw [List.getElem?_append_right hge] at hr
      obtain ⟨hlt, hr⟩ := List.getElem?_eq_some_iff.mp hr
      have hj : j - (recordsOf rest).length = 0 := by simpa using hlt
      refine .inr ⟨by omega, ?_⟩
      rw [← hr]
      simp [hj]
  rcases hlast index record hget with hclosed | ⟨hindex, hrecord⟩
  · rw [hclosed] at hopen
    cases hopen
  · subst hrecord
    refine ⟨hid, htool, complete_open ?_⟩
    intro j r hj hr
    rcases hlast j r hr with hclosed | ⟨hj', -⟩
    · exact hclosed
    · exact absurd (hj'.trans hindex.symm) hj

/-- The event next in the stream of the tracker continues the events since the submission. -/
theorem Baseline.fits
    (h : Baseline identity generation calls t submission recent)
    (hgeneration : t.generation = generation) (ha : Admitted t e)
    (horder : Order recent e) : Fits submission recent e := by
  obtain ⟨cursor, hcursor, hseq, htime⟩ := ha.cursor
  rw [h.cursor] at hcursor
  obtain rfl := Option.some.inj hcursor
  exact ⟨ha.generation.trans (hgeneration.trans h.launched.symm), ha.root.trans h.root,
    ha.turn.trans h.turn, hseq, htime, horder⟩

/-- The baseline after an event that continues it: what is left to say is the new state of
the invocation. -/
theorem Baseline.next {t t' : Tracker} {submission : Event} {recent : List Event}
    (h : Baseline identity generation calls t submission recent)
    (hgeneration : t.generation = generation) {e : Event} (ha : Admitted t e) (clean : Bool)
    (horder : Order recent e) (hroot : t'.root = t.root) (hturn : t'.turn = t.turn)
    (hcursor : t'.cursor = some (e.sequence, e.observedMicros)) (hepoch : t'.epoch = t.epoch)
    (hrecords : t'.records = recordsOf (e :: recent))
    (hphase : Phase identity generation (.event e clean :: calls) t' (e :: recent)) :
    Baseline identity generation (.event e clean :: calls) t' submission (e :: recent) := by
  obtain ⟨flagged, older, hevents, hrecent⟩ := h.stream
  refine ⟨⟨(e, clean) :: flagged, older, ?_, ?_⟩, h.hook, h.launched,
    ⟨h.fits hgeneration ha horder, h.serial⟩, hroot.trans h.root, hturn.trans h.turn, hcursor,
    hrecords, ?_, hphase⟩
  · rw [events, hevents]
    rfl
  · rw [hrecent]
    rfl
  · rw [hepoch]
    exact h.epoch

/-- What holds of the tracker after every run: it is its own tracker, and it is active only
over a baseline. -/
structure Tracked (identity generation : Nat) (calls : List Call) (t : Tracker) : Prop where
  owner : t.identity = identity
  launched : t.generation = generation
  baseline : t.active = true →
    ∃ submission recent, Baseline identity generation calls t submission recent

theorem Tracked.epoch (h : Tracked identity generation calls t)
    (hactive : t.active = true) : t.epoch.isSome = true := by
  obtain ⟨submission, recent, hbase⟩ := h.baseline hactive
  exact hbase.epoch

theorem Baseline.closed (h : Baseline identity generation calls t submission recent)
    (hpending : t.pending = none) (hdone : ∀ r ∈ t.records, r.completed = true) :
    ∀ p, recent.head? = some p → p.hook = .post := by
  cases h.phase with
  | idle hhead => exact hhead
  | running hp =>
    obtain ⟨id, tool, -, -, -, -, heq⟩ := h.serial.running hp
    have hopen := hdone ⟨id, tool, false⟩ (by
      rw [h.records, heq]
      exact mem_append_right _ mem_cons_self)
    cases hopen
  | asked hq hp hsome => rw [hpending] at hsome; cases hsome
  | bound hq hp hsome => rw [hpending] at hsome; cases hsome
  | cleared ho hq hp hsome => rw [hpending] at hsome; cases hsome

theorem Baseline.runs (h : Baseline identity generation calls t submission recent)
    (hpending : t.pending = none) (hr : r ∈ t.records) (hopen : r.completed = false) :
    ∃ p rest, recent = p :: rest ∧ p.hook = .pre := by
  cases h.phase with
  | idle hhead =>
    rw [h.records] at hr
    rw [recordsOf_completed hhead hr] at hopen
    cases hopen
  | running hp => exact ⟨_, _, rfl, hp⟩
  | asked hq hp hsome => rw [hpending] at hsome; cases hsome
  | bound hq hp hsome => rw [hpending] at hsome; cases hsome
  | cleared ho hq hp hsome => rw [hpending] at hsome; cases hsome

theorem event_identity (t : Tracker) (e : Event) (clean : Bool) :
    (t.event e clean).1.identity = t.identity ∧ (t.event e clean).1.generation = t.generation := by
  have hfollow : ∀ q : Tracker, (q.follow e clean).1.identity = q.identity ∧
      (q.follow e clean).1.generation = q.generation := by
    intro q
    unfold follow submitted dispatch pre permission post
    simp only
    repeat' split
    all_goals exact ⟨rfl, rfl⟩
  unfold event
  simp only
  split
  · split
    · exact ⟨rfl, rfl⟩
    · split
      · exact ⟨rfl, rfl⟩
      · exact hfollow t.invalidate
  · split
    · exact ⟨rfl, rfl⟩
    · split
      · exact ⟨rfl, rfl⟩
      · exact hfollow t

theorem baseline_event {o : Option Effect} (h : Tracked identity generation calls t)
    (hafter : after identity generation calls = t) (hresult : t.event e clean = (t', o))
    (hmove : Move t e clean t' o) (hactive : t'.active = true) : ∃ submission recent,
      Baseline identity generation (.event e clean :: calls) t' submission recent := by
  cases hmove with
  | lost hlost =>
    rw [hlost.inactive] at hactive
    cases hactive
  | begun hook hclean hgen hbegun =>
    refine ⟨e, [], ⟨[], events calls, by rw [hclean]; rfl, rfl⟩, hook, hgen.trans h.launched,
      trivial, hbegun.root, hbegun.turn, hbegun.cursor, hbegun.records, hbegun.started,
      .idle (fun p hp => nomatch hp) hbegun.pending hbegun.issued⟩
  | pre ha hook hid htool hpending hfree =>
    rename_i id tool
    obtain ⟨submission, recent, hbase⟩ := h.baseline ha.active
    have hhead := hbase.closed hpending (fun r hr => (hfree r hr).1)
    have hfresh : ∀ x ∈ recent, x.invocation ≠ some id := by
      intro x hx hxid
      obtain ⟨r, hr, hrid⟩ := hbase.serial.used hx hxid
      exact (hfree r (by rw [hbase.records]; exact hr)).2 hrid
    refine ⟨submission, e :: recent, hbase.next h.launched ha clean
      (.pre hook hid htool hfresh hhead) rfl rfl rfl rfl ?_ (.running hook hpending ha.issued)⟩
    show t.records ++ [⟨id, tool, false⟩] = _
    rw [recordsOf_pre hook, hid, htool, hbase.records]
    rfl
  | permission ha hook hindex hget htool hnamed hpending hepoch =>
    rename_i index epoch record
    obtain ⟨submission, recent, hbase⟩ := h.baseline ha.active
    have hopen : record.completed = false := by
      obtain ⟨hlt, hpred, -⟩ := List.findIdx?_eq_some_iff_getElem.mp hindex
      rw [List.getElem?_eq_getElem hlt] at hget
      rw [Option.some.inj hget] at hpred
      simpa using hpred
    obtain ⟨p, rest, rfl, hp⟩ := hbase.runs hpending (mem_of_getElem? hget) hopen
    rw [hbase.records] at hget
    obtain ⟨hid, hptool, -⟩ := open_record hbase.serial hp hget hopen
    refine ⟨submission, e :: p :: rest, hbase.next h.launched ha clean
      (.permission hook hp (htool.trans hptool.symm) ?_) rfl rfl rfl rfl ?_
      (.asked hook hp rfl hepoch rfl rfl ?_)⟩
    · rw [hid]
      exact hnamed
    · rw [recordsOf_permission hook]
      exact hbase.records
    · refine ⟨[], clean, calls, rfl, ?_, ?_⟩
      · show ((after identity generation calls).event e clean).2 = _
        rw [hafter, hresult]
      · show ((after identity generation calls).event e clean).1.epoch = _
        rw [hafter, hresult]
        exact hepoch
  | post ha hook hget hopen hid htool hpending =>
    rename_i index record
    obtain ⟨submission, recent, hbase⟩ := h.baseline ha.active
    obtain ⟨p, rest, rfl, hp⟩ := hbase.runs hpending (mem_of_getElem? hget) hopen
    rw [hbase.records] at hget
    obtain ⟨hpid, hptool, hmap⟩ := open_record hbase.serial hp hget hopen
    refine ⟨submission, e :: p :: rest, hbase.next h.launched ha clean
      (.post hook hp (htool.trans hptool.symm) (hid.trans hpid.symm)) rfl rfl rfl rfl ?_
      (.idle ?_ hpending ha.issued)⟩
    · show t.records.modify index Invocation.complete = _
      rw [recordsOf_post hook, hbase.records, hmap]
    · intro x hx
      rw [← Option.some.inj hx]
      exact hook
  | clear ha hook hget hopen hid htool hpending hindex hbound =>
    rename_i index record c
    obtain ⟨submission, recent, hbase⟩ := h.baseline ha.active
    rw [hbase.records] at hget
    cases hbase.phase with
    | idle hhead hnone => rw [hpending] at hnone; cases hnone
    | running hp hnone => rw [hpending] at hnone; cases hnone
    | asked hq hp hsome hepoch hunbound => rw [hbound] at hunbound; cases hunbound
    | cleared ho hq hp hsome =>
      rw [recordsOf_completed (fun x hx => by rw [← Option.some.inj hx]; exact ho)
        (mem_of_getElem? hget)] at hopen
      cases hopen
    | bound hq hp hsome hepoch hissued hacked =>
      rename_i q p rest c'
      rw [hpending] at hsome
      obtain rfl := Option.some.inj hsome
      have hgetp := hget
      rw [recordsOf_permission hq] at hgetp
      obtain ⟨hpid, hptool, hmap⟩ := open_record hbase.serial.2 hp hgetp hopen
      refine ⟨submission, e :: q :: p :: rest, hbase.next h.launched ha clean
        (.clear hook hq hp (htool.trans hptool.symm) (hid.trans hpid.symm)) rfl rfl rfl rfl ?_
        (.cleared hook hq hp hpending hepoch rfl (hacked.cons _))⟩
      show t.records.modify index Invocation.complete = _
      rw [recordsOf_post hook, hbase.records, recordsOf_permission hq, hmap]

theorem Baseline.kept (h : Baseline identity generation calls t submission recent) (call : Call)
    (hevents : events (call :: calls) = events calls) :
    Baseline identity generation (call :: calls) t submission recent := by
  obtain ⟨flagged, older, heq, hrecent⟩ := h.stream
  exact { h with
    stream := ⟨flagged, older, hevents.trans heq, hrecent⟩
    phase := h.phase.cons call }

theorem acknowledgeWait_cases (t : Tracker) (effect : Effect) :
    (t.acknowledgeWait effect = (t, false)) ∨
    ∃ c, effect = .bindWait c ∧ t.active = true ∧ t.issued = some (.bindWait c) ∧
      t.acknowledgeWait effect = ({ t with bound := true, issued := none }, true) := by
  cases effect with
  | clearWait c => exact .inl rfl
  | bindWait c =>
    unfold acknowledgeWait
    simp only
    split
    · exact .inl rfl
    · rename_i hok
      have haccepts : t.accepts (.bindWait c) = true := by simpa using hok
      obtain ⟨hactive, hissued⟩ := Bool.and_eq_true_iff.mp haccepts
      exact .inr ⟨c, rfl, hactive, beq_iff_eq.mp hissued, rfl⟩

theorem acknowledgeClear_cases (t : Tracker) (effect : Effect) :
    (t.acknowledgeClear effect = (t, false)) ∨
    ∃ c, effect = .clearWait c ∧ t.active = true ∧ t.issued = some (.clearWait c) ∧
      t.acknowledgeClear effect =
        ({ t with pending := none, bound := false, issued := none }, true) := by
  cases effect with
  | bindWait c => exact .inl rfl
  | clearWait c =>
    unfold acknowledgeClear
    simp only
    split
    · exact .inl rfl
    · rename_i hok
      have haccepts : t.accepts (.clearWait c) = true := by simpa using hok
      obtain ⟨hactive, hissued⟩ := Bool.and_eq_true_iff.mp haccepts
      exact .inr ⟨c, rfl, hactive, beq_iff_eq.mp hissued, rfl⟩

theorem baseline_acknowledgeWait (h : Tracked identity generation calls t)
    (hafter : after identity generation calls = t) {effect : Effect}
    (hactive : (t.acknowledgeWait effect).1.active = true) : ∃ submission recent,
      Baseline identity generation (.acknowledgeWait effect :: calls)
        (t.acknowledgeWait effect).1 submission recent := by
  rcases acknowledgeWait_cases t effect with heq | ⟨c, rfl, hactive', hissued, heq⟩
  · rw [heq] at hactive ⊢
    obtain ⟨submission, recent, hbase⟩ := h.baseline hactive
    exact ⟨submission, recent, hbase.kept _ rfl⟩
  · obtain ⟨submission, recent, hbase⟩ := h.baseline hactive'
    rw [heq]
    cases hbase.phase with
    | idle hhead hpending hnone => rw [hissued] at hnone; cases hnone
    | running hp hpending hnone => rw [hissued] at hnone; cases hnone
    | bound hq hp hpending hepoch hnone => rw [hissued] at hnone; cases hnone
    | cleared ho hq hp hpending hepoch hclear => rw [hissued] at hclear; cases hclear
    | asked hq hp hpending hepoch hbound hbind hoffered =>
      rw [hissued] at hbind
      cases hbind
      have hkept := hbase.kept (.acknowledgeWait (.bindWait c)) rfl
      refine ⟨submission, _, { hkept with phase := .bound hq hp hpending hepoch rfl ?_ }⟩
      refine ⟨[], .acknowledgeWait (.bindWait c), calls, rfl, hoffered, ?_, ?_⟩
      · rw [hafter, acknowledges, heq]
        rfl
      · show ((after identity generation calls).acknowledgeWait (.bindWait c)).1.epoch = _
        rw [hafter, heq]
        exact hepoch

theorem baseline_acknowledgeClear (h : Tracked identity generation calls t) {effect : Effect}
    (hactive : (t.acknowledgeClear effect).1.active = true) :
    ∃ submission recent, Baseline identity generation (.acknowledgeClear effect :: calls)
      (t.acknowledgeClear effect).1 submission recent := by
  rcases acknowledgeClear_cases t effect with heq | ⟨c, rfl, hactive', hissued, heq⟩
  · rw [heq] at hactive ⊢
    obtain ⟨submission, recent, hbase⟩ := h.baseline hactive
    exact ⟨submission, recent, hbase.kept _ rfl⟩
  · obtain ⟨submission, recent, hbase⟩ := h.baseline hactive'
    rw [heq]
    cases hbase.phase with
    | idle hhead hpending hnone => rw [hissued] at hnone; cases hnone
    | running hp hpending hnone => rw [hissued] at hnone; cases hnone
    | bound hq hp hpending hepoch hnone => rw [hissued] at hnone; cases hnone
    | asked hq hp hpending hepoch hbound hbind => rw [hissued] at hbind; cases hbind
    | cleared ho hq hp hpending hepoch hclear hbound =>
      have hkept := hbase.kept (.acknowledgeClear (.clearWait c)) rfl
      refine ⟨submission, _, { hkept with phase := .idle ?_ rfl rfl }⟩
      intro x hx
      rw [← Option.some.inj hx]
      exact ho

theorem tracked_after (identity generation : Nat) (calls : List Call) :
    Tracked identity generation calls (after identity generation calls) := by
  induction calls with
  | nil => exact ⟨rfl, rfl, fun h => nomatch h⟩
  | cons call calls ih =>
    show Tracked identity generation (call :: calls) ((after identity generation calls).apply call)
    generalize hafter : after identity generation calls = t at ih
    cases call with
    | event e clean =>
      have hsame := event_identity t e clean
      refine ⟨hsame.1.trans ih.owner, hsame.2.trans ih.launched, ?_⟩
      intro hactive
      exact baseline_event ih hafter rfl (event_cases t ih.epoch e clean) hactive
    | acknowledgeWait effect =>
      have hsame : (t.acknowledgeWait effect).1.identity = t.identity ∧
          (t.acknowledgeWait effect).1.generation = t.generation := by
        rcases acknowledgeWait_cases t effect with heq | ⟨c, -, -, -, heq⟩
        · rw [heq]
          exact ⟨rfl, rfl⟩
        · rw [heq]
          exact ⟨rfl, rfl⟩
      exact ⟨hsame.1.trans ih.owner, hsame.2.trans ih.launched,
        fun hactive => baseline_acknowledgeWait ih hafter hactive⟩
    | acknowledgeClear effect =>
      have hsame : (t.acknowledgeClear effect).1.identity = t.identity ∧
          (t.acknowledgeClear effect).1.generation = t.generation := by
        rcases acknowledgeClear_cases t effect with heq | ⟨c, -, -, -, heq⟩
        · rw [heq]
          exact ⟨rfl, rfl⟩
        · rw [heq]
          exact ⟨rfl, rfl⟩
      exact ⟨hsame.1.trans ih.owner, hsame.2.trans ih.launched,
        fun hactive => baseline_acknowledgeClear ih hactive⟩
    | invalidate => exact ⟨ih.owner, ih.launched, fun h => nomatch h⟩

end baseline

/-! ## Candidates are used once -/

def Effect.candidate : Effect → Candidate
  | .bindWait c => c
  | .clearWait c => c

/-- The record of the candidate is completed. -/
def Tracker.done (t : Tracker) (c : Candidate) : Prop :=
  ∃ record, t.records[c.invocation]? = some record ∧ record.completed = true

/-- What keeps the tracker from returning the effect again in its epoch. -/
def Settled (t : Tracker) : Effect → Prop
  | .bindWait c => t.done c ∨ t.pending = some c
  | .clearWait c => t.done c

/-- The effect is of an earlier epoch, or settled in this one. -/
def Used (t : Tracker) (effect : Effect) : Prop :=
  ∀ n, t.epoch = some n → effect.candidate.epoch < n ∨
    (effect.candidate.epoch = n ∧ t.active = true ∧ Settled t effect)

/-- The effects a run returned and acknowledged are each used once, and the issued one is
the last returned. -/
structure Fresh (t : Tracker) (effects acks : List Effect) : Prop where
  distinct : effects.Nodup
  used : ∀ effect ∈ effects, Used t effect
  issued : ∀ effect, t.issued = some effect → effect ∈ effects
  cleared : ∀ c, t.issued = some (.clearWait c) → t.pending = some c ∧ t.done c
  acksDistinct : acks.Nodup
  acks : ∀ effect ∈ acks, effect ∈ effects ∧ t.issued ≠ some effect

section fresh
variable {t t' : Tracker} {effects acks : List Effect}

variable {effect : Effect}

theorem Used.later (h : Used t effect) (hlater : LaterEpoch t t') : Used t' effect := by
  intro n hn
  obtain ⟨m, hm, hlt⟩ := hlater n hn
  rcases h m hm with hold | ⟨heq, -⟩
  · exact .inl (Nat.lt_trans hold hlt)
  · exact .inl (heq ▸ hlt)

theorem Fresh.dropped (h : Fresh t effects acks) (hissued : t'.issued = none)
    (hused : ∀ effect ∈ effects, Used t' effect) : Fresh t' effects acks := by
  refine ⟨h.distinct, hused, ?_, ?_, h.acksDistinct, ?_⟩
  · intro effect heff
    rw [hissued] at heff
    cases heff
  · intro c hc
    rw [hissued] at hc
    cases hc
  · intro effect heff
    refine ⟨(h.acks effect heff).1, ?_⟩
    rw [hissued]
    exact fun hnone => nomatch hnone

theorem Fresh.lost (h : Fresh t effects acks) (hlost : Lost t t') : Fresh t' effects acks := by
  refine h.dropped hlost.issued ?_
  intro effect heff
  rcases hlost.epoch with ⟨hinactive, hsame⟩ | hlater
  · intro n hn
    rcases h.used effect heff n (hsame ▸ hn) with hold | ⟨-, hactive, -⟩
    · exact .inl hold
    · rw [hinactive] at hactive
      cases hactive
  · exact (h.used effect heff).later hlater

theorem Used.same (h : Used t effect) (hepoch : t'.epoch = t.epoch)
    (hactive : t.active = true → t'.active = true) (hsettled : Settled t effect → Settled t' effect) :
    Used t' effect := by
  intro n hn
  rw [hepoch] at hn
  rcases h n hn with hold | ⟨heq, hon, hset⟩
  · exact .inl hold
  · exact .inr ⟨heq, hactive hon, hsettled hset⟩

theorem Fresh.returned (h : Fresh t effects acks) (hepoch : t.epoch = some effect.candidate.epoch)
    (hsame : t'.epoch = t.epoch) (hactive : t'.active = true) (hnew : ¬ Settled t effect)
    (hsettled : Settled t' effect) (hissued : t'.issued = some effect)
    (hcleared : ∀ c, effect = .clearWait c → t'.pending = some c ∧ t'.done c)
    (hold : ∀ x ∈ effects, Used t' x) : Fresh t' (effect :: effects) acks := by
  have hnot : effect ∉ effects := by
    intro hmem
    rcases h.used effect hmem _ hepoch with hlt | ⟨-, -, hset⟩
    · exact absurd hlt (Nat.lt_irrefl _)
    · exact hnew hset
  refine ⟨nodup_cons.mpr ⟨hnot, h.distinct⟩, ?_, ?_, ?_, h.acksDistinct, ?_⟩
  · intro x hx
    rcases mem_cons.mp hx with rfl | hx
    · intro n hn
      rw [hsame, hepoch] at hn
      exact .inr ⟨Option.some.inj hn, hactive, hsettled⟩
    · exact hold x hx
  · intro x hx
    rw [hissued] at hx
    rw [← Option.some.inj hx]
    exact mem_cons_self
  · intro c hc
    rw [hissued] at hc
    exact hcleared c (Option.some.inj hc)
  · intro x hx
    have hxold := (h.acks x hx).1
    refine ⟨mem_cons_of_mem effect hxold, ?_⟩
    rw [hissued]
    intro heq
    rw [Option.some.inj heq] at hnot
    exact hnot hxold

variable {c : Candidate}

variable {record : Invocation}

theorem done_append (h : t.done c) (heq : t'.records = t.records ++ [record]) : t'.done c := by
  obtain ⟨r, hget, hcompleted⟩ := h
  obtain ⟨hlt, -⟩ := List.getElem?_eq_some_iff.mp hget
  exact ⟨r, by rw [heq, List.getElem?_append_left hlt]; exact hget, hcompleted⟩

theorem done_modify (h : t.done c) {index : Nat}
    (heq : t'.records = t.records.modify index Invocation.complete) : t'.done c := by
  obtain ⟨r, hget, hcompleted⟩ := h
  by_cases hindex : index = c.invocation
  · refine ⟨r.complete, ?_, rfl⟩
    rw [heq, hindex, List.getElem?_modify_eq, hget]
    rfl
  · exact ⟨r, by rw [heq, List.getElem?_modify_ne _ _ hindex]; exact hget, hcompleted⟩

theorem Settled.mono (h : Settled t effect) (hdone : ∀ c, t.done c → t'.done c)
    (hpending : ∀ c, t.pending = some c → t'.done c ∨ t'.pending = some c) : Settled t' effect := by
  cases effect with
  | clearWait c => exact hdone c h
  | bindWait c =>
    rcases h with hd | hp
    · exact .inl (hdone c hd)
    · exact hpending c hp

theorem not_done (hget : t.records[c.invocation]? = some record) (hopen : record.completed = false) :
    ¬ t.done c := by
  intro ⟨r, hr, hcompleted⟩
  rw [hget] at hr
  rw [Option.some.inj hr, hcompleted] at hopen
  cases hopen

theorem fresh_move {o : Option Effect} (h : Fresh t effects acks)
    (hpending : ∀ c, t.active = true → t.pending = some c → t.epoch = some c.epoch)
    (hmove : Move t e clean t' o) : Fresh t' (o.toList ++ effects) acks := by
  cases hmove with
  | lost hlost => exact h.lost hlost
  | begun hook hclean hgen hbegun =>
    exact h.dropped hbegun.issued (fun effect heff => (h.used effect heff).later hbegun.epoch)
  | pre ha hook hid htool hnone hfree =>
    refine h.dropped ha.issued ?_
    intro effect heff
    refine (h.used effect heff).same rfl (fun hon => hon) (fun hset => hset.mono ?_ ?_)
    · intro c hd
      exact done_append hd rfl
    · intro c hc
      exact .inr hc
  | permission ha hook hindex hget htool hnamed hnone hepoch =>
    rename_i index epoch record
    have hopen : record.completed = false := by
      obtain ⟨hlt, hpred, -⟩ := List.findIdx?_eq_some_iff_getElem.mp hindex
      rw [List.getElem?_eq_getElem hlt] at hget
      rw [Option.some.inj hget] at hpred
      simpa using hpred
    refine h.returned hepoch rfl ha.active ?_ (.inr rfl) rfl (fun c hc => nomatch hc) ?_
    · intro hset
      rcases hset with hd | hp
      · exact not_done hget hopen hd
      · rw [hnone] at hp
        cases hp
    · intro effect heff
      refine (h.used effect heff).same rfl (fun hon => hon) (fun hset => hset.mono ?_ ?_)
      · exact fun c hd => hd
      · intro c hc
        rw [hnone] at hc
        cases hc
  | post ha hook hget hopen hid htool hnone =>
    refine h.dropped ha.issued ?_
    intro effect heff
    refine (h.used effect heff).same rfl (fun hon => hon) (fun hset => hset.mono ?_ ?_)
    · intro c hd
      exact done_modify hd rfl
    · intro c hc
      exact .inr hc
  | clear ha hook hget hopen hid htool hsome hindex hbound =>
    rename_i index record c
    subst hindex
    have hdone : ({ (t.moved e).completeRecord c.invocation with
        issued := some (.clearWait c) } : Tracker).done c := by
      refine ⟨record.complete, ?_, rfl⟩
      show (t.records.modify c.invocation Invocation.complete)[c.invocation]? = _
      rw [List.getElem?_modify_eq, hget]
      rfl
    refine h.returned (hpending c ha.active hsome) rfl ha.active (not_done hget hopen) hdone rfl
      ?_ ?_
    · intro c' hc'
      cases hc'
      exact ⟨hsome, hdone⟩
    · intro effect heff
      refine (h.used effect heff).same rfl (fun hon => hon) (fun hset => hset.mono ?_ ?_)
      · intro c' hd
        exact done_modify hd rfl
      · intro c' hc'
        exact .inr hc'

theorem Fresh.acknowledged (h : Fresh t effects acks) (hissued : t.issued = some effect)
    (hnone : t'.issued = none) (hused : ∀ x ∈ effects, Used t' x) :
    Fresh t' effects (effect :: acks) := by
  have hdropped := h.dropped hnone hused
  have hnew : effect ∉ acks := fun hmem => (h.acks effect hmem).2 hissued
  refine { hdropped with acksDistinct := nodup_cons.mpr ⟨hnew, h.acksDistinct⟩, acks := ?_ }
  intro x hx
  rcases mem_cons.mp hx with rfl | hx
  · exact ⟨h.issued x hissued, by rw [hnone]; exact fun hno => nomatch hno⟩
  · exact hdropped.acks x hx

theorem fresh_acknowledgeWait (h : Fresh t effects acks) (effect : Effect) :
    Fresh (t.acknowledgeWait effect).1 effects
      ((t.acknowledges (.acknowledgeWait effect)).toList ++ acks) := by
  rw [acknowledges]
  rcases acknowledgeWait_cases t effect with heq | ⟨c, rfl, hactive, hissued, heq⟩
  · rw [heq]
    exact h
  · rw [heq]
    refine h.acknowledged hissued rfl ?_
    intro x hx
    refine (h.used x hx).same rfl (fun hon => hon) (fun hset => hset.mono ?_ ?_)
    · exact fun c hd => hd
    · exact fun c hc => .inr hc

theorem fresh_acknowledgeClear (h : Fresh t effects acks) (effect : Effect) :
    Fresh (t.acknowledgeClear effect).1 effects
      ((t.acknowledges (.acknowledgeClear effect)).toList ++ acks) := by
  rw [acknowledges]
  rcases acknowledgeClear_cases t effect with heq | ⟨c, rfl, hactive, hissued, heq⟩
  · rw [heq]
    exact h
  · rw [heq]
    refine h.acknowledged hissued rfl ?_
    obtain ⟨hpending, hdone⟩ := h.cleared c hissued
    intro x hx
    refine (h.used x hx).same rfl (fun hon => hon) (fun hset => hset.mono ?_ ?_)
    · exact fun c hd => hd
    · intro c' hc'
      rw [hpending] at hc'
      rw [← Option.some.inj hc']
      exact .inl hdone

theorem Tracked.pending_epoch {identity generation : Nat} {calls : List Call}
    (h : Tracked identity generation calls t) (hactive : t.active = true)
    (hpending : t.pending = some c) : t.epoch = some c.epoch := by
  obtain ⟨submission, recent, hbase⟩ := h.baseline hactive
  cases hbase.phase with
  | idle hhead hnone => rw [hpending] at hnone; cases hnone
  | running hp hnone => rw [hpending] at hnone; cases hnone
  | asked hq hp hsome hepoch => rw [hpending] at hsome; cases hsome; exact hepoch
  | bound hq hp hsome hepoch => rw [hpending] at hsome; cases hsome; exact hepoch
  | cleared ho hq hp hsome hepoch => rw [hpending] at hsome; cases hsome; exact hepoch

theorem fresh_after (identity generation : Nat) (calls : List Call) :
    Fresh (after identity generation calls) (returned identity generation calls)
      (acknowledged identity generation calls) := by
  induction calls with
  | nil =>
    refine ⟨nodup_nil, ?_, ?_, ?_, nodup_nil, ?_⟩
    · intro effect heff
      cases heff
    · intro effect heff
      cases heff
    · intro c hc
      cases hc
    · intro effect heff
      cases heff
  | cons call calls ih =>
    have htracked := tracked_after identity generation calls
    rw [after, returned, acknowledged]
    cases call with
    | event e clean =>
      exact fresh_move ih (fun c hactive hc => htracked.pending_epoch hactive hc)
        (event_cases _ htracked.epoch e clean)
    | acknowledgeWait effect => exact fresh_acknowledgeWait ih effect
    | acknowledgeClear effect => exact fresh_acknowledgeClear ih effect
    | invalidate => exact ih.lost (lost_invalidate _)

end fresh

/-! ## Main result -/

/-- The call is a clean submission of the tracker's generation. -/
def Call.Submits (generation : Nat) : Call → Prop
  | .event e clean => e.hook = .submitted ∧ clean = true ∧ e.generation = generation
  | _ => False

/-- The event continues the events since the latest submission, which was clean and of the
generation, and these were serial. -/
def Continues (generation : Nat) (calls : List Call) (e : Event) : Prop :=
  ∃ flagged submission older, events calls = flagged ++ (submission, true) :: older ∧
    submission.hook = .submitted ∧ submission.generation = generation ∧
    Serial submission (flagged.map Prod.fst) ∧ Fits submission (flagged.map Prod.fst) e

/-- The course of events that earns a clear: since the latest submission, clean and of the
generation, every event had its root and turn, with contiguous sequence numbers and
increasing times, and the last three are the `Pre` of an invocation id not used since the
submission, a `Permission` of its tool and the `Post` of the same id and tool. -/
structure Course (generation : Nat) (stream : List (Event × Bool))
    (submission pre permission post : Event) (earlier : List Event) : Prop where
  since : ∃ flagged older, stream = flagged ++ (submission, true) :: older ∧
    flagged.map Prod.fst = post :: permission :: pre :: earlier
  submitted : submission.hook = .submitted
  launched : submission.generation = generation
  same : ∀ e ∈ post :: permission :: pre :: earlier, e.hook ≠ .submitted ∧
    e.generation = generation ∧ e.root = submission.root ∧ e.turn = submission.turn
  contiguous : List.IsChain (fun newer older : Event => newer.sequence = older.sequence + 1 ∧
    older.observedMicros < newer.observedMicros)
    (post :: permission :: pre :: earlier ++ [submission])
  hooks : pre.hook = .pre ∧ permission.hook = .permission ∧ post.hook = .post
  invocation : ∃ id tool, pre.invocation = some id ∧ pre.tool = some tool ∧
    (∀ e ∈ earlier, e.invocation ≠ some id) ∧ permission.tool = some tool ∧
    (permission.invocation = none ∨ permission.invocation = some id) ∧
    post.invocation = some id ∧ post.tool = some tool

/-- `ClearWait(c)` is earned: the course of events, whose `Permission` returned `BindWait(c)`,
acknowledged since in the epoch that still runs. -/
def Earned (identity generation : Nat) (calls : List Call) (c : Candidate) : Prop :=
  (after identity generation calls).epoch = some c.epoch ∧
  ∃ submission pre permission post earlier,
    Course generation (events calls) submission pre permission post earlier ∧
    Bound identity generation calls permission c

section result
variable {identity generation : Nat} {calls : List Call} {submission : Event} {recent : List Event}

theorem Serial.same (h : Serial submission recent) : ∀ e ∈ recent, e.hook ≠ .submitted ∧
    e.generation = submission.generation ∧ e.root = submission.root ∧
    e.turn = submission.turn := by
  induction recent with
  | nil => exact fun e he => nomatch he
  | cons x recent ih =>
    intro e he
    rcases mem_cons.mp he with rfl | he
    · refine ⟨?_, h.1.generation, h.1.root, h.1.turn⟩
      cases h.1.order with
      | pre hook => rw [hook]; decide
      | permission hook => rw [hook]; decide
      | post hook => rw [hook]; decide
      | clear hook => rw [hook]; decide
    · exact ih h.2 e he

theorem Serial.contiguous (h : Serial submission recent) :
    List.IsChain (fun newer older : Event => newer.sequence = older.sequence + 1 ∧
      older.observedMicros < newer.observedMicros) (recent ++ [submission]) := by
  induction recent with
  | nil => exact .singleton submission
  | cons e recent ih =>
    have hfits := h.1
    cases recent with
    | nil => exact isChain_cons_cons.mpr ⟨⟨hfits.sequence, hfits.time⟩, ih h.2⟩
    | cons x recent => exact isChain_cons_cons.mpr ⟨⟨hfits.sequence, hfits.time⟩, ih h.2⟩

theorem earned_of_accepts {c : Candidate}
    (h : (after identity generation calls).accepts (.clearWait c) = true) :
    Earned identity generation calls c := by
  obtain ⟨hactive, hissued⟩ := Bool.and_eq_true_iff.mp h
  have hissued := beq_iff_eq.mp hissued
  obtain ⟨submission, recent, hbase⟩ := (tracked_after identity generation calls).baseline hactive
  cases hbase.phase with
  | idle hhead hpending hnone => rw [hissued] at hnone; cases hnone
  | running hp hpending hnone => rw [hissued] at hnone; cases hnone
  | bound hq hp hpending hepoch hnone => rw [hissued] at hnone; cases hnone
  | asked hq hp hpending hepoch hbound hbind => rw [hissued] at hbind; cases hbind
  | cleared ho hq hp hpending hepoch hclear hbound =>
    rename_i post permission pre earlier c'
    rw [hissued] at hclear
    cases hclear
    have hserial := hbase.serial
    obtain ⟨flagged, older, hevents, hrecent⟩ := hbase.stream
    obtain ⟨id, tool, hid, htool, hfresh, -, -⟩ := hserial.2.2.running hp
    refine ⟨hepoch, submission, pre, permission, post, earlier, ?_, hbound⟩
    refine ⟨⟨flagged, older, hevents, hrecent.symm⟩, hbase.hook, hbase.launched, ?_,
      hserial.contiguous, ⟨hp, hq, ho⟩, ?_⟩
    · intro e he
      have hsame := hserial.same e he
      exact ⟨hsame.1, hsame.2.1.trans hbase.launched, hsame.2.2⟩
    · have hasked : permission.tool = pre.tool ∧
          (permission.invocation = none ∨ permission.invocation = pre.invocation) := by
        cases hserial.2.1.order with
        | pre hook => rw [hq] at hook; cases hook
        | permission hook hpre hsame hnamed => exact ⟨hsame, hnamed⟩
        | post hook => rw [hq] at hook; cases hook
        | clear hook => rw [hq] at hook; cases hook
      have hanswered : post.tool = pre.tool ∧ post.invocation = pre.invocation := by
        cases hserial.1.order with
        | pre hook => rw [ho] at hook; cases hook
        | permission hook => rw [ho] at hook; cases hook
        | post hook hpre => rw [hq] at hpre; cases hpre
        | clear hook hperm hpre hsame hinv => exact ⟨hsame, hinv⟩
      rw [hid] at hasked hanswered
      rw [htool] at hasked hanswered
      exact ⟨id, tool, hid, htool, hfresh, hasked.1, hasked.2, hanswered.2, hanswered.1⟩

theorem accepts_of_returned {effect : Effect}
    (h : ((after identity generation calls).event e clean).2 = some effect) :
    (after identity generation (.event e clean :: calls)).accepts effect = true := by
  have hmove := event_cases _ (tracked_after identity generation calls).epoch e clean
  show ((after identity generation calls).event e clean).1.accepts effect = true
  generalize (after identity generation calls).event e clean = result at h hmove
  obtain ⟨t', o⟩ := result
  cases hmove with
  | lost => cases h
  | begun => cases h
  | pre => cases h
  | post => cases h
  | permission ha => cases h; simp [accepts, moved, ha.active]
  | clear ha => cases h; simp [accepts, moved, completeRecord, ha.active]

theorem inactive_apply (h : t.active = false) {call : Call}
    (hno : ¬ call.Submits t.generation) : (t.apply call).active = false := by
  cases call with
  | event e clean =>
    have hmove := event_cases t (fun hactive => by rw [h] at hactive; cases hactive) e clean
    show (t.event e clean).1.active = false
    generalize t.event e clean = result at hmove
    obtain ⟨t', o⟩ := result
    have hnot : ¬ Admitted t e := fun ha => by
      have hactive := ha.active
      rw [h] at hactive
      cases hactive
    cases hmove with
    | lost hlost => exact hlost.inactive
    | begun hook hclean hgen => exact absurd ⟨hook, hclean, hgen⟩ hno
    | pre ha => exact absurd ha hnot
    | permission ha => exact absurd ha hnot
    | post ha => exact absurd ha hnot
    | clear ha => exact absurd ha hnot
  | acknowledgeWait effect =>
    rcases acknowledgeWait_cases t effect with heq | ⟨c, -, hactive, -⟩
    · show (t.acknowledgeWait effect).1.active = false
      rw [heq]
      exact h
    · rw [h] at hactive
      cases hactive
  | acknowledgeClear effect =>
    rcases acknowledgeClear_cases t effect with heq | ⟨c, -, hactive, -⟩
    · show (t.acknowledgeClear effect).1.active = false
      rw [heq]
      exact h
    · rw [h] at hactive
      cases hactive
  | invalidate => rfl

theorem inactive_run (h : (after identity generation calls).active = false)
    {later : List Call} (hno : ∀ call ∈ later, ¬ call.Submits generation) :
    (after identity generation (later ++ calls)).active = false := by
  induction later with
  | nil => exact h
  | cons call later ih =>
    refine inactive_apply (ih (fun x hx => hno x (mem_cons_of_mem call hx))) ?_
    rw [(tracked_after identity generation (later ++ calls)).launched]
    exact hno call mem_cons_self

/-- An event that follows an unacknowledged effect or does not continue the stream costs the
tracker its baseline. -/
theorem inactive_of_broken
    (h : (after identity generation calls).issued ≠ none ∨ ¬ Continues generation calls e)
    (hno : ¬ (Call.event e clean).Submits generation) :
    (after identity generation (.event e clean :: calls)).active = false := by
  have htracked := tracked_after identity generation calls
  cases hactive : (after identity generation (.event e clean :: calls)).active with
  | false => rfl
  | true =>
    obtain ⟨submission, recent, hbase⟩ :=
      (tracked_after identity generation (.event e clean :: calls)).baseline hactive
    obtain ⟨flagged, older, hevents, rfl⟩ := hbase.stream
    have hadmitted : Admitted (after identity generation calls) e := by
      have hmove := event_cases _ htracked.epoch e clean
      have hactive' : ((after identity generation calls).event e clean).1.active = true := hactive
      generalize (after identity generation calls).event e clean = result at hmove hactive'
      obtain ⟨t', o⟩ := result
      cases hmove with
      | lost hlost => rw [hlost.inactive] at hactive'; cases hactive'
      | begun hook hclean hgen =>
        exact absurd ⟨hook, hclean, hgen.trans htracked.launched⟩ hno
      | pre ha => exact ha
      | permission ha => exact ha
      | post ha => exact ha
      | clear ha => exact ha
    cases flagged with
    | nil =>
      -- The latest submission would be the event itself.
      have heq : (e, clean) = (submission, true) := (List.cons.inj hevents).1
      cases heq
      exact absurd ⟨hbase.hook, rfl, hbase.launched⟩ hno
    | cons x flagged =>
      obtain ⟨hx, hrest⟩ := List.cons.inj hevents
      subst hx
      rcases h with hissued | hbroken
      · exact absurd hadmitted.issued hissued
      · exact absurd ⟨flagged, submission, older, hrest, hbase.hook, hbase.launched,
          hbase.serial.2, hbase.serial.1⟩ hbroken

end result

/-- Over every run of one tracker (`calls`, newest first): a clear it accepts, or an event
returns, is earned; no effect is returned twice and none is acknowledged twice, so no two
`BindWait` carry one candidate and each candidate is bound and cleared at most once; and
after an event that breaks the course of events or follows an unacknowledged effect nothing
is accepted before the next clean submission. -/
theorem completion_clears_earned (identity generation : Nat) (calls : List Call) :
    (∀ c, (after identity generation calls).accepts (.clearWait c) = true →
      Earned identity generation calls c) ∧
    (∀ e clean c, ((after identity generation calls).event e clean).2 = some (.clearWait c) →
      Earned identity generation (.event e clean :: calls) c) ∧
    (returned identity generation calls).Nodup ∧ (acknowledged identity generation calls).Nodup ∧
    (∀ e clean, (after identity generation calls).issued ≠ none ∨ ¬ Continues generation calls e →
      ¬ (Call.event e clean).Submits generation →
      ∀ later, (∀ call ∈ later, ¬ call.Submits generation) → ∀ effect,
        (after identity generation (later ++ .event e clean :: calls)).accepts effect = false) := by
  have hfresh := fresh_after identity generation calls
  refine ⟨fun c hc => earned_of_accepts hc, ?_, hfresh.distinct, hfresh.acksDistinct, ?_⟩
  · intro e clean c hc
    exact earned_of_accepts (accepts_of_returned hc)
  · intro e clean hbroken hno later hlater effect
    have hinactive := inactive_run (inactive_of_broken hbroken hno) hlater
    rw [accepts, hinactive, Bool.false_and]

/-- The serial run of one approved invocation clears its wait. -/
example :
    let event (hook : Hook) (sequence : Nat) (invocation : Option String) : Event :=
      ⟨7, "root", "turn", sequence, sequence, hook, some "Bash", invocation⟩
    ((after 0 7 [.acknowledgeWait (.bindWait ⟨0, 1, 0⟩), .event (event .permission 3 none) false,
      .event (event .pre 2 (some "tool-1")) false, .event (event .submitted 1 none) true]).event
        (event .post 4 (some "tool-1")) false).2 = some (.clearWait ⟨0, 1, 0⟩) := by
  decide

end Orkworksd.CodexCompletion
