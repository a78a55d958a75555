import Orkworksd.Lib.Run
import Orkworksd.Runtime.HookReportReceipts

/- Receipts of the hook-report relay are never renewed, over every sequence of passes,
   cancelled or not, with unlinks whose blocking part may still run later.

   `Flight` is what a pass knows about the receipt of the report in its hands: the book has
   the same time for it, or has none, and then either the time is the overflow floor or an
   unlink has removed the receipt since the report was inspected (`flight_run`). From it and
   from `step_move` the bound and the floors follow along every run. -/
namespace Orkworksd.HookReportRelay
open Lib List OrderedMap

variable {N B S : Type}

/-! ## What a move keeps -/

/-- The entry `e'` has what `e` has. -/
structure Extends (e e' : PendingReceipt B S) : Prop where
  first : e'.firstReceipt = e.firstReceipt
  observation : ∀ stamp, e.observation = some stamp → e'.observation = some stamp
  bytes : ∀ bytes, e.bytes = some bytes → e'.bytes = some bytes

theorem Extends.refl (e : PendingReceipt B S) : Extends e e :=
  ⟨rfl, fun _ h => h, fun _ h => h⟩

theorem Extends.trans {e e' e'' : PendingReceipt B S} (h : Extends e e') (h' : Extends e' e'') :
    Extends e e'' where
  first := h'.first.trans h.first
  observation := fun stamp hs => h'.observation stamp (h.observation stamp hs)
  bytes := fun bytes hb => h'.bytes bytes (h.bytes bytes hb)

section moves
variable [DecidableEq N] {r : Relay N B S} {label : Label N B S} {book : ReceiptBook N B S}

theorem move_floors (h : BookMove r label book) :
    (∀ f, r.book.overflowFloor = some f → book.overflowFloor = some f) ∧
      ∀ stamp, r.book.observationFloor = some stamp → book.observationFloor = some stamp := by
  cases h with
  | floored overflow observation =>
    refine ⟨fun f hf => ?_, fun stamp hstamp => ?_⟩
    · show r.book.overflowFloor.or overflow = some f
      rw [hf]
      rfl
    · show r.book.observationFloor.or observation = some stamp
      rw [hstamp]
      rfl
  | _ => exact ⟨fun _ hf => hf, fun _ hstamp => hstamp⟩

/-- Only an unlink of its file takes a receipt away; until then it keeps what it has. -/
theorem move_entry {n : N} {e : PendingReceipt B S} (h : BookMove r label book)
    (he : r.book.pending.get n = some e) (hkept : ¬ Removes n r label) :
    ∃ e', book.pending.get n = some e' ∧ Extends e e' := by
  cases h with
  | floored overflow observation => exact ⟨e, he, .refl e⟩
  | rotated hbegin => exact ⟨e, he, .refl e⟩
  | @updated m e₀ bytes observation hget =>
    by_cases hm : m = n
    · subst hm
      obtain rfl : e₀ = e := Option.some.inj (hget.symm.trans he)
      refine ⟨_, (get_set).trans (if_pos rfl), rfl, ?_, ?_⟩
      · intro stamp hs
        show e₀.observation.or _ = some stamp
        rw [hs]
        rfl
      · intro b hb
        show e₀.bytes.or _ = some b
        rw [hb]
        rfl
    · exact ⟨e, (get_set).trans ((if_neg hm).trans he), .refl e⟩
  | @admitted m e₀ hnew hsource =>
    have hm : m ≠ n := fun heq => hnew (heq ▸ mem_keys he)
    exact ⟨e, (get_insert _ _ _ _).trans ((if_neg hm).trans he), .refl e⟩
  | @removed m hremoves =>
    have hm : m ≠ n := fun heq => hkept (heq ▸ hremoves)
    exact ⟨e, (get_remove _ _ _).trans ((if_neg hm).trans he), .refl e⟩

/-- An entry that was not there has a source; one that was there got its stamp from the
floor where it had none. -/
theorem move_source {n : N} {e' : PendingReceipt B S} (h : BookMove r label book)
    (he' : book.pending.get n = some e') :
    (n ∉ r.book.keys ∧ Source r n e') ∨
      ∃ e observation, r.book.pending.get n = some e ∧ e'.firstReceipt = e.firstReceipt ∧
        (e'.observation = e.observation ∨
          e'.observation = e.observation.or (r.book.observationFloor.or observation)) := by
  cases h with
  | floored overflow observation => exact .inr ⟨e', none, he', rfl, .inl rfl⟩
  | rotated hbegin => exact .inr ⟨e', none, he', rfl, .inl rfl⟩
  | @updated m e₀ bytes observation hget =>
    have hset := (get_set).symm.trans he'
    by_cases hm : m = n
    · subst hm
      rw [if_pos rfl] at hset
      cases hset
      exact .inr ⟨e₀, observation, hget, rfl, .inr rfl⟩
    · rw [if_neg hm] at hset
      exact .inr ⟨e', none, hset, rfl, .inl rfl⟩
  | @admitted m e₀ hnew hsource =>
    have hset := (get_insert _ _ _ _).symm.trans he'
    by_cases hm : m = n
    · subst hm
      rw [if_pos rfl] at hset
      cases hset
      exact .inl ⟨hnew, hsource⟩
    · rw [if_neg hm] at hset
      exact .inr ⟨e', none, hset, rfl, .inl rfl⟩
  | @removed m hremoves =>
    have hset := (get_remove _ _ _).symm.trans he'
    by_cases hm : m = n
    · rw [if_pos hm] at hset
      cases hset
    · rw [if_neg hm] at hset
      exact .inr ⟨e', none, hset, rfl, .inl rfl⟩

end moves

/-! ## The report in the hands of a pass -/

variable {t : Instant}

theorem not_holds {r : Relay N B S} {n : N}
    (h : ∀ pass, r.pass = some pass → ¬ pass.point.Holds n t) : ¬ r.Holds n t := by
  intro hholds
  obtain ⟨pass, hpass, hpoint⟩ := hholds
  exact h pass hpass hpoint

theorem setPass_free {r : Relay N B S} {pass : Pass N B S} {n : N} (h : ¬ pass.point.Holds n t) :
    ¬ (r.setPass pass).Holds n t := by
  apply not_holds
  intro pass' hpass'
  cases hpass'
  exact h

theorem discard_free (r : Relay N B S) (pass : Pass N B S) (name n : N) (t : Instant) :
    ¬ (r.discard pass name).Holds n t := by
  apply not_holds
  intro pass' hpass'
  cases hpass'
  exact fun h => h

section flight
variable [LinearOrder N] [DecidableEq B]

def Steps (isReportFilename : N → Bool) (r : Relay N B S) (label : Label N B S)
    (r' : Relay N B S) : Prop :=
  r.step isReportFilename label = some r'

/-- An unlink took the receipt of `n` away from under a pass that had read its time `t`. -/
def Detached (n : N) (t : Instant) (r : Relay N B S) (label : Label N B S) : Prop :=
  Removes n r label ∧ r.Holds n t

/-- That happened after the last inspection of a report. -/
def Since (isReportFilename : N → Bool) (n : N) (t : Instant) (as : List (Label N B S)) : Prop :=
  Occurred (Steps isReportFilename) start (· = .inspect) (fun _ s a _ => Detached n t s a) as

structure Flight (isReportFilename : N → Bool) (as : List (Label N B S)) (r : Relay N B S) :
    Prop where
  books : Books r.book
  same : ∀ {n t e}, r.Holds n t → r.book.pending.get n = some e → e.firstReceipt = t
  floor : ∀ {n t}, r.Holds n t → n ∉ r.book.keys →
    r.book.overflowFloor.getD t = t ∨ Since isReportFilename n t as
  applied : ∀ {pass visit bytes t}, r.pass = some pass →
    pass.point = .approval visit bytes t → visit.name ∉ r.book.keys →
    Since isReportFilename visit.name t as ∧ r.book.pending.length < maxPendingReceipts

variable {isReportFilename : N → Bool} {as : List (Label N B S)} {r r' : Relay N B S}
  {label : Label N B S}

theorem Flight.of_free (hbooks : Books r.book) (hfree : ∀ n t, ¬ r.Holds n t) :
    Flight isReportFilename as r where
  books := hbooks
  same := fun hholds _ => absurd hholds (hfree _ _)
  floor := fun hholds _ => absurd hholds (hfree _ _)
  applied := by
    intro pass visit bytes t hpass hpoint _
    refine absurd ⟨pass, hpass, ?_⟩ (hfree visit.name t)
    rw [hpoint]
    exact ⟨rfl, rfl⟩

theorem Flight.room {n : N} {e : PendingReceipt B S} (h : Flight isReportFilename as r)
    (hnew : n ∉ r.book.keys) (hsource : Source r n e) :
    r.book.pending.length < maxPendingReceipts := by
  cases hsource with
  | prepared now stamp hroom _ _ => exact hroom
  | retained observation hroom _ _ => exact hroom
  | restored pass visit bytes hpass hpoint hname _ =>
    subst hname
    exact (h.applied hpass hpoint hnew).2

theorem Flight.books_move {book : ReceiptBook N B S} (h : Flight isReportFilename as r)
    (hmove : BookMove r label book) : Books book := by
  cases hmove with
  | floored overflow observation => exact h.books.same rfl (.refl _)
  | rotated hbegin =>
    rw [takeRetries_eq h.books]
    refine h.books.same rfl ?_
    have hperm : (r.book.retryOrder.drop maxRetriesPerPass ++
        r.book.retryOrder.take maxRetriesPerPass).Perm
        (r.book.retryOrder.take maxRetriesPerPass ++
          r.book.retryOrder.drop maxRetriesPerPass) := perm_append_comm
    rwa [take_append_drop] at hperm
  | updated bytes observation hget =>
    exact h.books.same (keys_set_of_mem (mem_keys hget)) (.refl _)
  | admitted hnew hsource => exact h.books.insert hnew (h.room hnew hsource) _
  | removed hremoves => exact h.books.remove _

/-- A receipt admitted while the overflow floor is set has the floor as its time, unless it
is the receipt an unlink took away from under the pass. -/
theorem Flight.admitted_first {n : N} {e : PendingReceipt B S} {f : Instant}
    (h : Flight isReportFilename as r) (hnew : n ∉ r.book.keys) (hsource : Source r n e)
    (hf : r.book.overflowFloor = some f) :
    e.firstReceipt = f ∨ Since isReportFilename n e.firstReceipt as := by
  cases hsource with
  | prepared now stamp _ hfirst _ =>
    left
    rw [hfirst, hf]
    rfl
  | retained observation _ hholds _ =>
    rcases h.floor hholds hnew with hfloor | hsince
    · left
      rw [hf] at hfloor
      exact hfloor.symm
    · exact .inr hsince
  | restored pass visit bytes hpass hpoint hname _ =>
    subst hname
    exact .inr (h.applied hpass hpoint hnew).1

variable {bytes : B}

variable {kind : Kind} {pass : Pass N B S} {visit : Visit N S}

theorem flight_inspect (hbooks : Books (r.inspect pass visit kind bytes).book) :
    Flight isReportFilename as (r.inspect pass visit kind bytes) := by
  unfold Relay.inspect at hbooks ⊢
  dsimp only at hbooks ⊢
  generalize (if (!r.book.contains visit.name &&
      decide (maxPendingReceipts ≤ r.book.pending.length) && kind == Kind.approval) = true then
      { r.book with overflowFloor := r.book.overflowFloor.or (some visit.receipt) }
    else r.book) = book at hbooks ⊢
  cases hget : book.pending.get visit.name with
  | none =>
    simp only [hget] at hbooks ⊢
    refine ⟨hbooks, ?_, ?_, ?_⟩
    · intro n t e hholds he
      obtain ⟨pass', hpass', hpoint⟩ := hholds
      cases hpass'
      obtain ⟨hname, -⟩ := hpoint
      subst hname
      cases hget.symm.trans he
    · intro n t hholds hnew
      obtain ⟨pass', hpass', hpoint⟩ := hholds
      cases hpass'
      obtain ⟨hname, htime⟩ := hpoint
      left
      show book.overflowFloor.getD t = t
      rw [← htime]
      cases book.overflowFloor <;> rfl
    · intro pass' visit' bytes' t hpass' hpoint
      cases hpass'
      cases hpoint
  | some old =>
    simp only [hget] at hbooks ⊢
    split at hbooks
    · rename_i hchanged
      rw [if_pos hchanged]
      exact .of_free hbooks (discard_free _ _ _)
    · rename_i hchanged
      rw [if_neg hchanged]
      refine ⟨hbooks, ?_, ?_, ?_⟩
      · intro n t e hholds he
        obtain ⟨pass', hpass', hpoint⟩ := hholds
        cases hpass'
        obtain ⟨hname, htime⟩ := hpoint
        subst hname
        obtain rfl : old = e := Option.some.inj (hget.symm.trans he)
        exact htime
      · intro n t hholds hnew
        obtain ⟨pass', hpass', hpoint⟩ := hholds
        cases hpass'
        obtain ⟨hname, -⟩ := hpoint
        subst hname
        exact absurd (mem_keys hget) hnew
      · intro pass' visit' bytes' t hpass' hpoint
        cases hpass'
        cases hpoint

variable {t : Instant}

/-- A report that was retained is in the book, under the time the book had for it or else
the one it was retained with. -/
theorem retainReceipt_some {book : ReceiptBook N B S} {n : N} {approval : Bool}
    {observation : Option S} {stamp : Option S}
    (hsame : ∀ e, book.pending.get n = some e → e.firstReceipt = t)
    (h : (book.retainReceipt n bytes t approval observation).2 = some stamp) :
    ∃ e, (book.retainReceipt n bytes t approval observation).1.pending.get n = some e ∧
      e.firstReceipt = t := by
  unfold ReceiptBook.retainReceipt at h ⊢
  cases hget : book.pending.get n with
  | some e =>
    simp only [hget] at h ⊢
    split at h
    · cases h
    · rename_i hchanged
      rw [if_neg hchanged]
      exact ⟨_, (get_set).trans (if_pos rfl), hsame e hget⟩
  | none =>
    simp only [hget] at h ⊢
    split at h
    · cases h
    · rename_i hroom
      rw [if_neg hroom]
      exact ⟨_, (get_insert _ _ _ _).trans (if_pos rfl), rfl⟩

theorem flight_retain {full : Bool} (h : Flight isReportFilename as r) (hpass : r.pass = some pass)
    (hpoint : pass.point = .retain visit kind bytes t full)
    (hbooks : Books (r.retain pass visit kind bytes t full).book) :
    Flight isReportFilename (.retain :: as) (r.retain pass visit kind bytes t full) := by
  have hholds : r.Holds visit.name t := by
    refine ⟨pass, hpass, ?_⟩
    rw [hpoint]
    exact ⟨rfl, rfl⟩
  have hfree : ∀ (r₀ : Relay N B S) (point : Point N B S), (∀ n t, ¬ point.Holds n t) →
      ∀ n t, ¬ (r₀.setPass (pass.goto point)).Holds n t :=
    fun r₀ point hpoint n t => setPass_free (hpoint n t)
  cases kind with
  | identity =>
    refine .of_free hbooks ?_
    unfold Relay.retain
    dsimp only
    split
    · split
      · exact hfree _ _ (fun _ _ hn => hn)
      · split
        · exact hfree _ _ (fun _ _ hn => hn)
        · exact hfree _ _ (fun _ _ hn => hn)
    · exact hfree _ _ (fun _ _ hn => hn)
  | approval =>
    unfold Relay.retain at hbooks ⊢
    dsimp only at hbooks ⊢
    split at hbooks
    · rename_i hfull
      rw [if_pos hfull]
      exact .of_free hbooks (hfree _ _ (fun _ _ hn => hn))
    · rename_i hfull
      rw [if_neg hfull]
      cases hstamp : (r.book.retainReceipt visit.name bytes t true none).2 with
      | none =>
        simp only [hstamp] at hbooks ⊢
        exact .of_free hbooks (hfree _ _ (fun _ _ hn => hn))
      | some stamp =>
        simp only [hstamp] at hbooks ⊢
        obtain ⟨e, he, htime⟩ := retainReceipt_some (fun e he => h.same hholds he) hstamp
        refine ⟨hbooks, ?_, ?_, ?_⟩
        · intro n t' e' hholds' he'
          obtain ⟨pass', hpass', hpoint'⟩ := hholds'
          cases hpass'
          obtain ⟨hname, rfl⟩ := hpoint'
          subst hname
          obtain rfl : e = e' := Option.some.inj (he.symm.trans he')
          exact htime
        · intro n t' hholds' hnew
          obtain ⟨pass', hpass', hpoint'⟩ := hholds'
          cases hpass'
          obtain ⟨hname, -⟩ := hpoint'
          subst hname
          exact absurd (mem_keys he) hnew
        · intro pass' visit' bytes' t' hpass' hpoint' hnew
          cases hpass'
          cases hpoint'
          exact absurd (mem_keys he) hnew

/-- The blocking part of an unlink runs while a pass may hold the receipt it removes. -/
theorem flight_unlinkRan {id : Nat} {name : N} {gone : Bool}
    (h : Flight isReportFilename as r) (hrun : Run (Steps isReportFilename) start as r)
    (hmem : (id, name) ∈ r.unlinks)
    (hstep : Steps isReportFilename r (.unlinkRan id gone) (r.unlinkRan id name gone)) :
    Flight isReportFilename (.unlinkRan id gone :: as) (r.unlinkRan id name gone) := by
  have hlater : ∀ {n t}, Since isReportFilename n t as →
      Since isReportFilename n t (.unlinkRan id gone :: as) :=
    fun hsince => hsince.later (fun heq => nomatch heq)
  cases gone with
  | false =>
    refine ⟨h.books, h.same, ?_, ?_⟩
    · intro n t hholds hnew
      exact (h.floor hholds hnew).imp (fun hfloor => hfloor) hlater
    · intro pass visit bytes t hpass hpoint hnew
      exact ⟨hlater (h.applied hpass hpoint hnew).1, (h.applied hpass hpoint hnew).2⟩
  | true =>
    have hkeys : ∀ {n}, n ∉ (r.book.remove name).keys → n ∉ r.book.keys ∨ n = name := by
      intro n hn
      rw [keys_remove, mem_filter] at hn
      by_cases hname : n = name
      · exact .inr hname
      · exact .inl (fun hmem => hn ⟨hmem, by simpa using hname⟩)
    have hhere : ∀ {t}, r.Holds name t →
        Since isReportFilename name t (.unlinkRan id true :: as) :=
      fun hholds => Occurred.here hrun hstep ⟨⟨id, rfl, hmem⟩, hholds⟩
    refine ⟨h.books.remove name, ?_, ?_, ?_⟩
    · intro n t e hholds he
      have hget := (get_remove _ _ _).symm.trans he
      split at hget
      · cases hget
      · exact h.same hholds hget
    · intro n t hholds hnew
      by_cases hname : n = name
      · subst hname
        exact .inr (hhere hholds)
      · have hold := (hkeys hnew).resolve_right hname
        exact (h.floor hholds hold).imp (fun hfloor => hfloor) hlater
    · intro pass visit bytes t hpass hpoint hnew
      have hlength : (r.book.remove name).pending.length ≤ r.book.pending.length :=
        length_filter_le _ _
      by_cases hold : visit.name ∈ r.book.keys
      · -- the receipt is removed by this very step, and leaves its room
        have hname : visit.name = name := (hkeys hnew).resolve_left (fun hno => hno hold)
        have hholds : r.Holds visit.name t := by
          refine ⟨pass, hpass, ?_⟩
          rw [hpoint]
          exact ⟨rfl, rfl⟩
        refine ⟨?_, ?_⟩
        · rw [hname] at hholds ⊢
          exact hhere hholds
        · have hbound := h.books.bounded
          have hlt : (r.book.remove name).keys.length < r.book.keys.length := by
            rw [keys_remove]
            refine length_filter_lt_length_iff_exists.mpr ⟨name, hname ▸ hold, ?_⟩
            simp
          rw [length_keys] at hlt
          show (r.book.remove name).pending.length < maxPendingReceipts
          omega
      · obtain ⟨hsince, hroom⟩ := h.applied hpass hpoint hold
        exact ⟨hlater hsince, Nat.lt_of_le_of_lt hlength hroom⟩

theorem flight_step (h : Flight isReportFilename as r)
    (hrun : Run (Steps isReportFilename) start as r) (hstep : Steps isReportFilename r label r') :
    Flight isReportFilename (label :: as) r' := by
  have hcase := step_case hstep
  have hbooks : Books r'.book := h.books_move (step_move hcase)
  -- a step that leaves no receipt time with the pass has nothing else to keep
  cases hcase with
  | unlinkRan hmem => exact flight_unlinkRan h hrun hmem hstep
  | inspect hpass hpoint => exact flight_inspect hbooks
  | retain hpass hpoint => exact flight_retain h hpass hpoint hbooks
  | begin hpass => exact .of_free hbooks (fun n t => setPass_free (fun hn => hn))
  | cancel => exact .of_free hbooks (fun n t => not_holds (fun pass hpass => nomatch hpass))
  | scanned hpass hpoint => exact .of_free hbooks (fun n t => setPass_free (fun hn => hn))
  | stopped hpass hsql =>
    exact .of_free hbooks (fun n t => not_holds (fun pass hpass => nomatch hpass))
  | visit hpass hpoint hreports =>
    exact .of_free hbooks (fun n t => setPass_free (fun hn => hn))
  | finish hpass hpoint hreports =>
    exact .of_free hbooks (fun n t => not_holds (fun pass hpass => nomatch hpass))
  | read hpass hpoint => exact .of_free hbooks (fun n t => setPass_free (fun hn => hn))
  | unread hpass hpoint => exact .of_free hbooks (discard_free _ _ _)
  | identityKept hpass hpoint => exact .of_free hbooks (fun n t => setPass_free (fun hn => hn))
  | identityDone hpass hpoint => exact .of_free hbooks (discard_free _ _ _)
  | @approval pass visit bytes t outcome hpass hpoint =>
    refine .of_free hbooks (fun n t' => ?_)
    unfold Relay.approvalApplied
    dsimp only
    split
    · exact setPass_free (fun hn => hn)
    · exact discard_free _ _ _ _ _
  | unlinkDone hpass hpoint => exact .of_free hbooks (fun n t => setPass_free (fun hn => hn))

theorem flight_run (h : Run (Steps isReportFilename) start as r) :
    Flight isReportFilename as r := by
  refine Run.history (Flight isReportFilename) ?_ (fun hrun ih hs => flight_step ih hrun hs) h
  refine .of_free ⟨nodup_nil, .refl _, Nat.zero_le _⟩ (fun n t => not_holds ?_)
  exact fun pass hpass => nomatch hpass

end flight

/-! ## Runs -/

section runs
variable [LinearOrder N] [DecidableEq B] {isReportFilename : N → Bool}
  {as bs : List (Label N B S)} {r r' : Relay N B S} {label : Label N B S} {n : N}

/-- The steps that do not remove the receipt of `n`. -/
def Keeping (isReportFilename : N → Bool) (n : N) (r : Relay N B S) (label : Label N B S)
    (r' : Relay N B S) : Prop :=
  Steps isReportFilename r label r' ∧ ¬ Removes n r label

variable {e : PendingReceipt B S}

theorem entry_run (he : r.book.pending.get n = some e)
    (h : Run (Keeping isReportFilename n) r bs r') :
    ∃ e', r'.book.pending.get n = some e' ∧ Extends e e' := by
  refine Run.invariant (fun s => ∃ e', s.book.pending.get n = some e' ∧ Extends e e')
    ⟨e, he, .refl e⟩ ?_ h
  intro s label t ih hstep
  obtain ⟨e', he', hext⟩ := ih
  obtain ⟨e'', he'', hext'⟩ := move_entry (step_move (step_case hstep.1)) he' hstep.2
  exact ⟨e'', he'', hext.trans hext'⟩

theorem floors_run (h : Run (Steps isReportFilename) r bs r') :
    (∀ f, r.book.overflowFloor = some f → r'.book.overflowFloor = some f) ∧
      ∀ stamp, r.book.observationFloor = some stamp → r'.book.observationFloor = some stamp := by
  refine Run.invariant (fun s =>
    (∀ f, r.book.overflowFloor = some f → s.book.overflowFloor = some f) ∧
      ∀ stamp, r.book.observationFloor = some stamp → s.book.observationFloor = some stamp)
    ⟨fun _ hf => hf, fun _ hstamp => hstamp⟩ ?_ h
  intro s label t ih hstep
  have hfloors := move_floors (step_move (step_case hstep))
  exact ⟨fun f hf => hfloors.1 f (ih.1 f hf), fun stamp hs => hfloors.2 stamp (ih.2 stamp hs)⟩

/-- At some time an unlink took the receipt of `n` away from under a pass that had read the
time `t` for it. -/
def WasDetached (isReportFilename : N → Bool) (n : N) (t : Instant) (as : List (Label N B S)) :
    Prop :=
  Occurred (Steps isReportFilename) start (fun _ => False) (fun _ s a _ => Detached n t s a) as

variable {t : Instant}

theorem Since.was (h : Since isReportFilename n t as) : WasDetached isReportFilename n t as := by
  obtain ⟨later, a, earlier, s, u, heq, hrun, hstep, hdetached, -⟩ := h
  exact ⟨later, a, earlier, s, u, heq, hrun, hstep, hdetached, fun _ _ hno => hno⟩

variable {f : Instant}

theorem stored_run (h : Run (Steps isReportFilename) start as r)
    (hf : r.book.overflowFloor = some f) (hnew : n ∉ r.book.keys)
    (h' : Run (Steps isReportFilename) r bs r') (he : r'.book.pending.get n = some e) :
    e.firstReceipt = f ∨ WasDetached isReportFilename n e.firstReceipt (bs ++ as) := by
  refine Run.history (fun bs s => ∀ e, s.book.pending.get n = some e →
    e.firstReceipt = f ∨ WasDetached isReportFilename n e.firstReceipt (bs ++ as)) ?_ ?_ h' e he
  · intro e he
    exact absurd (mem_keys he) hnew
  · intro bs s label t hrun ih hstep e he
    have hflight := flight_run (h.append hrun)
    rcases move_source (step_move (step_case hstep)) he with hsource | hold
    · have hfloor := (floors_run hrun).1 f hf
      rcases hflight.admitted_first hsource.1 hsource.2 hfloor with hfirst | hsince
      · exact .inl hfirst
      · exact .inr (hsince.was.later (fun hno => hno))
    · obtain ⟨e₀, -, he₀, hfirst, -⟩ := hold
      rw [hfirst]
      exact (ih e₀ he₀).imp (fun heq => heq) (fun hwas => hwas.later (fun hno => hno))

theorem used_run {pass : Pass N B S} {visit : Visit N S} {bytes : B}
    (h : Run (Steps isReportFilename) start as r) (hf : r.book.overflowFloor = some f)
    (hnew : n ∉ r.book.keys) (h' : Run (Steps isReportFilename) r bs r')
    (hpass : r'.pass = some pass) (hpoint : pass.point = .approval visit bytes t)
    (hname : visit.name = n) : t = f ∨ WasDetached isReportFilename n t (bs ++ as) := by
  have hflight := flight_run (h.append h')
  by_cases hmem : n ∈ r'.book.keys
  · obtain ⟨e, he⟩ := get_of_mem hmem
    have hholds : r'.Holds n t := by
      refine ⟨pass, hpass, ?_⟩
      rw [hpoint]
      exact ⟨hname, rfl⟩
    rw [← hflight.same hholds he]
    exact stored_run h hf hnew h' he
  · subst hname
    exact .inr (hflight.applied hpass hpoint hmem).1.was

/-- The stamp of `n`, where it has one, is the floor. -/
def Stamped (n : N) (stamp : S) (r : Relay N B S) : Prop :=
  r.book.observationFloor = some stamp ∧ ∀ e, r.book.pending.get n = some e →
    e.observation = none ∨ e.observation = some stamp

variable {stamp : S}

theorem stamped_step (h : Stamped n stamp r) (hstep : Steps isReportFilename r label r') :
    Stamped n stamp r' := by
  obtain ⟨hfloor, ih⟩ := h
  have hmove := step_move (step_case hstep)
  refine ⟨(move_floors hmove).2 stamp hfloor, ?_⟩
  intro e he
  rcases move_source hmove he with hsource | hold
  · cases hsource.2 with
    | prepared now own _ _ hstamp =>
      rw [hstamp, hfloor]
      exact .inr rfl
    | retained observation _ _ hstamp =>
      rw [hstamp, hfloor]
      exact .inr rfl
    | restored pass visit bytes _ _ _ hstamp => exact .inl hstamp
  · obtain ⟨e₀, observation, he₀, -, hstamp⟩ := hold
    rcases hstamp with hstamp | hstamp
    · rw [hstamp]
      exact ih e₀ he₀
    · rw [hstamp, hfloor]
      rcases ih e₀ he₀ with h₀ | h₀
      · rw [h₀]
        exact .inr rfl
      · rw [h₀]
        exact .inr rfl

theorem stamped_run (hf : r.book.observationFloor = some stamp) (hnew : n ∉ r.book.keys)
    (h' : Run (Steps isReportFilename) r bs r') (he : r'.book.pending.get n = some e) :
    e.observation = none ∨ e.observation = some stamp := by
  have hstart : Stamped n stamp r := ⟨hf, fun e he => absurd (mem_keys he) hnew⟩
  exact (Run.invariant (Stamped n stamp) hstart (fun ih hs => stamped_step ih hs) h').2 e he

end runs

end Orkworksd.HookReportRelay
