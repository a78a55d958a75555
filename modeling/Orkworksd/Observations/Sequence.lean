import Orkworksd.Observations.Calls

/- Sequence numbers are never reused.

   `Bounded env n` says that nothing in memory or on disk carries a number above `n`;
   a call of `record_observation` raises `n` by one, and no other event raises it.
   `Ahead m` says that the next number is above `m`, now and after a restart. Under both
   the next number does not wrap and is above every number handed out, whatever the
   writes of the call and of the calls before it did. -/
namespace Orkworksd.Observations
open List

open Taskmaster (Bytes WorkflowObservation)
open Lib (TextMap)
open Lib.Lines (newline)

variable {env : Env} {n m : Nat} {world : World} {file : Option Bytes}

/-! ## The counter file -/

theorem trim_of_no_whitespace {chars : List Char}
    (h : ∀ c ∈ chars, Lib.Text.isWhitespace c = false) : Lib.Text.trim chars = chars := by
  have hdrop : ∀ l : List Char, (∀ c ∈ l, Lib.Text.isWhitespace c = false) →
      l.dropWhile Lib.Text.isWhitespace = l := by
    intro l hl
    cases l with
    | nil => rfl
    | cons c l => rw [dropWhile_cons_of_neg (by simp [hl c mem_cons_self])]
  rw [Lib.Text.trim, hdrop chars h, hdrop _ (fun c hc => h c (mem_reverse.mp hc)),
    reverse_reverse]

variable {k : Nat}

theorem parseU64_toString (h : k < 2 ^ 64) : parseU64 (toString k) = some k := by
  have hchars : (toString k).toList = Nat.toDigits 10 k := by
    rw [Nat.toString_eq_repr, Nat.toList_repr]
  have hdigit : ∀ c ∈ Nat.toDigits 10 k, c.isDigit = true :=
    fun c hc => Nat.isDigit_of_mem_toDigits (by decide) (by decide) hc
  have hrange : ∀ c ∈ Nat.toDigits 10 k, 48 ≤ c.toNat ∧ c.toNat ≤ 57 := by
    intro c hc
    have hc := hdigit c hc
    simp only [Char.isDigit, Bool.and_eq_true, decide_eq_true_eq] at hc
    exact hc
  have htrim : Lib.Text.trim (toString k).toList = Nat.toDigits 10 k := by
    rw [hchars]
    refine trim_of_no_whitespace (fun c hc => ?_)
    have hc := hrange c hc
    simp only [Lib.Text.isWhitespace, Bool.or_eq_false_iff, Bool.and_eq_false_iff,
      decide_eq_false_iff_not, contains_eq_mem, mem_cons, not_mem_nil, or_false]
    omega
  have hhead : (Nat.toDigits 10 k).head? ≠ some '+' := by
    intro hplus
    have := hrange '+' (mem_of_mem_head? hplus)
    revert this
    decide
  have hvalue : Nat.ofDigitChars 10 (Nat.toDigits 10 k) 0 = k := Nat.ofDigitChars_ten_toDigits
  simp only [parseU64, htrim, if_neg hhead, hvalue]
  rw [if_pos ⟨Nat.toDigits_ne_nil, all_eq_true.mpr hdigit, h⟩]

/-! ## The bound -/

/-- No record kept in memory carries a number above `n`. -/
def BoundedCache (n : Nat) (cache : SessionCache) : Prop :=
  (∀ o ∈ cache.observations, sequenceOf o ≤ n) ∧ ∀ t ∈ cache.tombstones, t.sequence ≤ n

/-- No record a journal was made of carries a number above `n`. -/
def BoundedFile (env : Env) (n : Nat) (file : Option Bytes) : Prop :=
  ∀ bytes, file = some bytes → Written env (fun r => r.sequence ≤ n) bytes

structure Bounded (env : Env) (n : Nat) (world : World) : Prop where
  last : world.inner.lastIssuedSequence ≤ n
  counter : ∀ value, world.disk.counter = some value → ∃ k ≤ n, value = toString k
  file : ∀ s : String, BoundedFile env n world.disk.segments[s]?
  cache : ∀ (s : String) (cache : SessionCache), world.inner.sessionCache[s]? = some cache →
    BoundedCache n cache

variable {cache : SessionCache}

theorem BoundedCache.mono (h : BoundedCache m cache) (hmn : m ≤ n) :
    BoundedCache n cache :=
  ⟨fun o ho => Nat.le_trans (h.1 o ho) hmn, fun t ht => Nat.le_trans (h.2 t ht) hmn⟩

theorem BoundedCache.empty (n : Nat) : BoundedCache n SessionCache.empty :=
  ⟨by simp [SessionCache.empty], by simp [SessionCache.empty]⟩

theorem BoundedFile.mono (h : BoundedFile env m file) (hmn : m ≤ n) : BoundedFile env n file :=
  fun bytes hbytes => (h bytes hbytes).mono (fun _ hr => Nat.le_trans hr hmn)

theorem BoundedFile.getD (h : BoundedFile env n file) :
    Written env (fun r => r.sequence ≤ n) (file.getD []) := by
  cases file with
  | none => exact Written.nil
  | some bytes => exact h bytes rfl

theorem BoundedCache.render (h : BoundedCache n cache) :
    BoundedFile env n (some (Observations.render env cache.tombstones cache.observations)) := by
  intro bytes hbytes
  cases hbytes
  rw [render_eq]
  refine Written.lines (fun r hr => ?_)
  rcases mem_append.mp hr with hr | hr
  · obtain ⟨t, ht, rfl⟩ := mem_map.mp hr
    exact h.2 t ht
  · obtain ⟨o, ho, rfl⟩ := mem_map.mp hr
    exact h.1 o ho

variable {now : Timestamp}

variable {stored : StoredObservation}

theorem BoundedCache.rewritten (h : BoundedCache n cache) (hstored : sequenceOf stored ≤ n) :
    BoundedCache n (Observations.rewritten env now cache stored) := by
  have hobs : ∀ o, o ∈ cache.observations ∨ o = stored → sequenceOf o ≤ n := by
    intro o ho
    rcases ho with ho | rfl
    · exact h.1 o ho
    · exact hstored
  refine ⟨fun o ho => hobs o (mem_rewritten ho), ?_⟩
  intro t ht
  rcases mem_rewritten_tombstones ht with ht | ⟨o, ho, rfl⟩
  · exact h.2 t ht
  · exact hobs o ho

theorem BoundedCache.trimmed {dropIds protectedIds : List String} (h : BoundedCache n cache) :
    BoundedCache n (trimmedCache env now cache dropIds protectedIds) := by
  obtain ⟨hobs, htombs⟩ := mem_trimmedCache env now cache dropIds protectedIds
  refine ⟨fun o ho => h.1 o (hobs o ho), ?_⟩
  intro t ht
  rcases htombs t ht with ht | ⟨o, ho, rfl⟩
  · exact h.2 t ht
  · exact h.1 o ho

theorem bounded_appendOrRewrite {append : AppendFate} {rewrite : WriteFate} {segment : Segment}
    {ok : Bool} {segment' : Segment} (hfile : BoundedFile env n segment.file)
    (hcache : BoundedCache n segment.cache) (hstored : sequenceOf stored ≤ n)
    (h : appendOrRewrite env now append rewrite segment stored = (ok, segment')) :
    BoundedFile env n segment'.file ∧ BoundedCache n segment'.cache := by
  have hpiece : ∀ p, p <+: line (serializeObservationLine env stored) →
      BoundedFile env n (some (segment.file.getD [] ++ p)) := by
    intro p hp bytes hbytes
    cases hbytes
    exact hfile.getD.append (Written.piece (r := .observation stored) hstored hp)
  have hnew : BoundedCache n (Observations.rewritten env now segment.cache stored) :=
    hcache.rewritten hstored
  rcases appendOrRewrite_cases env now append rewrite segment stored with
    ⟨-, ⟨-, heq⟩ | ⟨-, heq⟩ | ⟨written, -, heq⟩⟩ | ⟨-, ⟨-, heq⟩ | ⟨replaced, -, heq⟩⟩
  · cases heq.symm.trans h
    refine ⟨hpiece _ (prefix_refl _), ?_, hcache.2⟩
    intro o ho
    rcases mem_append.mp ho with ho | ho
    · exact hcache.1 o ho
    · rw [mem_singleton.mp ho]
      exact hstored
  · cases heq.symm.trans h
    exact ⟨hfile, hcache⟩
  · cases heq.symm.trans h
    exact ⟨hpiece _ (List.take_prefix _ _), hcache⟩
  · cases heq.symm.trans h
    exact ⟨hnew.render, hnew⟩
  · cases heq.symm.trans h
    refine ⟨?_, hcache⟩
    cases replaced with
    | true => exact hnew.render
    | false => exact hfile

namespace Bounded

variable {env : Env} {m n : Nat} {world : World}

theorem mono (h : Bounded env m world) (hmn : m ≤ n) : Bounded env n world where
  last := Nat.le_trans h.last hmn
  counter := by
    intro value hvalue
    obtain ⟨k, hk, rfl⟩ := h.counter value hvalue
    exact ⟨k, Nat.le_trans hk hmn, rfl⟩
  file := fun s => (h.file s).mono hmn
  cache := fun s cache hcache => (h.cache s cache hcache).mono hmn

section
variable (h : Bounded env n world)
include h

theorem segment (s : String) :
    BoundedFile env n (world.segment s).file ∧ BoundedCache n (world.segment s).cache := by
  refine ⟨h.file s, ?_⟩
  show BoundedCache n (world.inner.sessionCache[s]?.getD SessionCache.empty)
  cases hcache : world.inner.sessionCache[s]? with
  | none => exact BoundedCache.empty n
  | some cache => exact h.cache s cache hcache

theorem setFile (s : String)
    (hfile : BoundedFile env n file) : Bounded env n (world.setFile s file) where
  last := h.last
  counter := h.counter
  file := by
    intro a
    rw [World.segments_setFile]
    split
    · exact hfile
    · exact h.file a
  cache := h.cache

theorem setCache (s : String)
    (hcache : BoundedCache n cache) : Bounded env n (world.setCache s cache) where
  last := h.last
  counter := h.counter
  file := h.file
  cache := by
    intro a cache' hget
    rw [World.sessionCache_setCache] at hget
    split at hget
    · cases hget
      exact hcache
    · exact h.cache a cache' hget

theorem setEntry (s key : String) (entry : Option IdempotencyEntry) :
    Bounded env n (world.setEntry s key entry) := ⟨h.last, h.counter, h.file, h.cache⟩

theorem setSequence {sequence : Nat} (hs : sequence ≤ n) :
    Bounded env n (world.setSequence sequence) := ⟨hs, h.counter, h.file, h.cache⟩

theorem setCounter {counter : Option String}
    (hc : ∀ value, counter = some value → ∃ k ≤ n, value = toString k) :
    Bounded env n (world.setCounter counter) := ⟨h.last, hc, h.file, h.cache⟩

theorem forget (s : String) : Bounded env n (world.forget s) where
  last := h.last
  counter := h.counter
  file := h.file
  cache := by
    intro a cache hget
    rw [World.sessionCache_forget] at hget
    split at hget
    · cases hget
    · exact h.cache a cache hget

end

theorem parsed (hreads : env.Reads) (hn : n < 2 ^ 64) (h : Bounded env n world)
    {fates : String → OpenFate} {s : String} {parsed : ParsedSegment}
    (hget : (readSegments env fates world.disk)[s]? = some parsed) :
    (∀ o ∈ parsed.observations, sequenceOf o ≤ n) ∧ ∀ t ∈ parsed.tombstones, t.sequence ≤ n := by
  rw [readSegments_get] at hget
  obtain ⟨bytes, hbytes, hparse⟩ := Option.bind_eq_some_iff.mp hget
  have hread : tolerantParse env bytes = parsed := by
    split at hparse
    · cases hparse
    · exact Option.some.inj hparse
  have hholds : ∀ r, parsed.Holds r → r.sequence ≤ n := by
    intro r hr
    rw [← hread] at hr
    obtain ⟨r₀, hr₀, rfl⟩ := (h.file s bytes hbytes).holds hreads
      (fun r hr => Nat.lt_of_le_of_lt hr hn) hr
    rw [ParsedLine.readBack_sequence]
    exact hr₀
  exact ⟨fun o ho => hholds (.observation o) ho, fun t ht => hholds (.tombstone t) ht⟩

theorem openStore (hreads : env.Reads) (hn : n < 2 ^ 64) (h : Bounded env n world) (now : Timestamp)
    (fates : String → OpenFate) : Bounded env n (openStore env now fates world.disk) where
  last := by
    have hfold : ∀ l : List Nat, (∀ x ∈ l, x ≤ n) → l.foldl max 0 ≤ n := by
      intro l hl
      have hgen : ∀ (l : List Nat) (a : Nat), a ≤ n → (∀ x ∈ l, x ≤ n) → l.foldl max a ≤ n := by
        intro l
        induction l with
        | nil => exact fun a ha _ => ha
        | cons x l ih =>
          intro a ha hl
          exact ih (max a x) (Nat.max_le.mpr ⟨ha, hl x mem_cons_self⟩)
            (fun y hy => hl y (mem_cons_of_mem x hy))
      exact hgen l 0 (Nat.zero_le n) hl
    have hseen : ((readSegments env fates world.disk).toList.map
        (fun p => maxParsedSequence p.2)).foldl max 0 ≤ n := by
      refine hfold _ (fun x hx => ?_)
      obtain ⟨p, hp, rfl⟩ := mem_map.mp hx
      obtain ⟨hobs, htombs⟩ := h.parsed hreads hn (TextMap.mem_toList.mp hp)
      refine hfold _ (fun y hy => ?_)
      rcases mem_append.mp hy with hy | hy
      · obtain ⟨o, ho, rfl⟩ := mem_map.mp hy
        exact hobs o ho
      · obtain ⟨t, ht, rfl⟩ := mem_map.mp hy
        exact htombs t ht
    simp only [Observations.openStore]
    split
    · exact hseen
    · rename_i value hvalue
      obtain ⟨k, hk, rfl⟩ := h.counter value hvalue
      rw [parseU64_toString (Nat.lt_of_le_of_lt hk hn)]
      exact Nat.max_le.mpr ⟨hk, hseen⟩
  counter := h.counter
  file := by
    intro s bytes hbytes
    rw [segments_openStore] at hbytes
    obtain ⟨old, hold, rfl⟩ := Option.map_eq_some_iff.mp hbytes
    have hw := h.file s old hold
    rcases openedFile_cases env (fates s) old with heq | ⟨validLen, -, -, heq⟩
    · rw [heq]
      exact hw
    · rw [heq]
      exact hw.take validLen
  cache := by
    intro s cache hget
    rw [sessionCache_openStore] at hget
    obtain ⟨parsed, hparsed, rfl⟩ := Option.map_eq_some_iff.mp hget
    obtain ⟨hobs, htombs⟩ := h.parsed hreads hn hparsed
    exact ⟨fun o ho => hobs o (mem_sortByKey.mp ho), fun t ht => htombs t (mem_sortByKey.mp ht)⟩

end Bounded

/-! ## The next number -/

/-- The number a restart reads from the counter file. -/
def counterValue (disk : Disk) : Nat := (disk.counter.bind parseU64).getD 0

/-- The next number is above `m`, in this process and in the next. -/
structure Ahead (m : Nat) (world : World) : Prop where
  last : m ≤ world.inner.lastIssuedSequence
  counter : m ≤ counterValue world.disk

theorem counterValue_toString {disk : Disk} (h : disk.counter = some (toString k)) (hk : k < 2 ^ 64) :
    counterValue disk = k := by
  rw [counterValue, h, Option.bind_some, parseU64_toString hk]
  rfl

/-- A number handed out is above all earlier ones, and the next is above it. -/
structure Handed (m : Nat) (result : Except RecordError RecordOutcome) (world : World) : Prop where
  ahead : Ahead m world
  accepted : ∀ o, result = .ok (.accepted o) → m < o.sequence ∧ Ahead o.sequence world

theorem Handed.of_ahead {result : Except RecordError RecordOutcome} (h : Ahead m world)
    (hresult : ∀ o, result ≠ .ok (.accepted o)) : Handed m result world :=
  ⟨h, fun o ho => absurd ho (hresult o)⟩

theorem record_bounded (hn : n + 1 < 2 ^ 64) (h : Bounded env n world) (hahead : Ahead m world)
    (call : RecordCall) (fates : RecordFates) :
    Bounded env (n + 1) (recordObservation env call fates world).2
      ∧ Handed m (recordObservation env call fates world).1
          (recordObservation env call fates world).2 := by
  have hup := h.mono (Nat.le_succ n)
  rcases recordObservation_cases env call fates world with
    ⟨result, heq, hresult⟩ | ⟨sub, -, -, -, heq | ⟨-, heq⟩⟩
  · rw [heq]
    exact ⟨hup, .of_ahead hahead hresult⟩
  · rw [heq]
    exact ⟨hup.setEntry _ _ _, .of_ahead ⟨hahead.last, hahead.counter⟩ (by simp)⟩
  · rw [heq]
    have hseq : nextSequence (world.setEntry call.sessionId sub.keyHash none)
        = world.inner.lastIssuedSequence + 1 := by
      have := h.last
      exact Nat.mod_eq_of_lt (by show world.inner.lastIssuedSequence + 1 < _; omega)
    have hlast := h.last
    rcases issue_cases env call fates sub (world.setEntry call.sessionId sub.keyHash none) with
      ⟨counter, hcounter, heq⟩ | heq
    · -- The counter write failed: no number was handed out, whatever the file holds now.
      rw [heq]
      have hnew : ∀ value, counter = some value → ∃ k ≤ n + 1, value = toString k := by
        intro value hvalue
        rcases hcounter with rfl | rfl
        · exact hup.counter value hvalue
        · cases hvalue
          exact ⟨_, by rw [hseq]; omega, rfl⟩
      refine ⟨(hup.setEntry _ _ _).setCounter hnew, .of_ahead ⟨hahead.last, ?_⟩ (by simp)⟩
      rcases hcounter with rfl | rfl
      · exact hahead.counter
      · rw [counterValue_toString rfl (by rw [hseq]; omega), hseq]
        have := hahead.last
        omega
    · rw [heq, hseq]
      -- The counter file and the counter in memory are at the new number.
      have hbase : Bounded env (n + 1) (((world.setEntry call.sessionId sub.keyHash none).setCounter
          (some (toString (world.inner.lastIssuedSequence + 1)))).setSequence
            (world.inner.lastIssuedSequence + 1)) := by
        refine ((hup.setEntry _ _ _).setCounter ?_).setSequence (by omega)
        intro value hvalue
        cases hvalue
        exact ⟨_, by omega, rfl⟩
      have hsegment := hbase.segment call.sessionId
      obtain ⟨ok, segment, hrun, hpersist⟩ := persist_cases env call fates
        (storedObservation env call sub (world.inner.lastIssuedSequence + 1))
        (((world.setEntry call.sessionId sub.keyHash none).setCounter
          (some (toString (world.inner.lastIssuedSequence + 1)))).setSequence
            (world.inner.lastIssuedSequence + 1))
      have hsum : sequenceOf (storedObservation env call sub (world.inner.lastIssuedSequence + 1))
          ≤ n + 1 := by
        show world.inner.lastIssuedSequence + 1 ≤ n + 1
        omega
      obtain ⟨hfile, hcache⟩ := bounded_appendOrRewrite hsegment.1 hsegment.2 hsum hrun
      have hnext := (hbase.setFile call.sessionId hfile).setCache call.sessionId hcache
      have hm := hahead.last
      have hfinal : ∀ k, k ≤ world.inner.lastIssuedSequence + 1 → ∀ w : World,
          w.inner.lastIssuedSequence = world.inner.lastIssuedSequence + 1 →
          w.disk.counter = some (toString (world.inner.lastIssuedSequence + 1)) → Ahead k w := by
        intro k hk w hlast' hcounter'
        refine ⟨by omega, ?_⟩
        rw [counterValue_toString hcounter' (by omega)]
        exact hk
      rcases hpersist with ⟨-, hpersist⟩ | ⟨-, hpersist⟩
      · rw [hpersist]
        refine ⟨hnext.setEntry _ _ _, hfinal m (by omega) _ rfl rfl, ?_⟩
        intro o ho
        cases ho
        exact ⟨by show m < world.inner.lastIssuedSequence + 1; omega,
          hfinal _ (Nat.le_refl _) _ rfl rfl⟩
      · rw [hpersist]
        exact ⟨hnext, .of_ahead (hfinal m (by omega) _ rfl rfl) (by simp)⟩

theorem step_bounded (hreads : env.Reads) (hn : n < 2 ^ 64) (h : Bounded env n world)
    (hahead : Ahead m world) {event : Event} (hevent : ∀ call fates, event ≠ .record call fates) :
    Bounded env n (step env world event) ∧ Ahead m (step env world event) := by
  cases event with
  | record call fates => exact absurd rfl (hevent call fates)
  | trim sessionId dropIds protectedIds now fate =>
    show Bounded env n (applyTrimSession env sessionId dropIds protectedIds now fate world).2
      ∧ Ahead m (applyTrimSession env sessionId dropIds protectedIds now fate world).2
    rcases applyTrimSession_cases env sessionId dropIds protectedIds now fate world with
      heq | ⟨cache, -, hcache, ⟨-, heq⟩ | ⟨replaced, -, heq⟩⟩
    · rw [heq]
      exact ⟨h, hahead⟩
    · have htrim : BoundedCache n (trimmedCache env now cache dropIds protectedIds) :=
        (h.cache sessionId cache hcache).trimmed
      rw [heq]
      exact ⟨(h.setFile sessionId htrim.render).setCache sessionId htrim,
        ⟨hahead.last, hahead.counter⟩⟩
    · have htrim : BoundedCache n (trimmedCache env now cache dropIds protectedIds) :=
        (h.cache sessionId cache hcache).trimmed
      rw [heq]
      refine ⟨h.setFile sessionId ?_, ⟨hahead.last, hahead.counter⟩⟩
      cases replaced with
      | true => exact htrim.render
      | false => exact h.file sessionId
  | delete sessionId fate =>
    have hnone : BoundedFile env n none := fun bytes hbytes => by cases hbytes
    have hunlinked := h.setFile sessionId hnone
    cases fate with
    | done => exact ⟨hunlinked.forget sessionId, ⟨hahead.last, hahead.counter⟩⟩
    | failed unlinked =>
      cases unlinked with
      | true => exact ⟨hunlinked, ⟨hahead.last, hahead.counter⟩⟩
      | false => exact ⟨h, hahead⟩
  | reopen now fates =>
    refine ⟨h.openStore hreads hn now fates, ?_, hahead.counter⟩
    show m ≤ (openStore env now fates world.disk).inner.lastIssuedSequence
    have hcounter := hahead.counter
    simp only [openStore]
    split
    · rename_i hnone
      rw [counterValue, hnone] at hcounter
      exact Nat.le_trans hcounter (Nat.zero_le _)
    · rename_i value hvalue
      obtain ⟨k, hk, rfl⟩ := h.counter value hvalue
      have hk64 := Nat.lt_of_le_of_lt hk hn
      rw [counterValue_toString hvalue hk64] at hcounter
      rw [parseU64_toString hk64]
      exact Nat.le_trans hcounter (Nat.le_max_left _ _)

/-! ## Runs -/

def Event.isRecord : Event → Bool
  | .record _ _ => true
  | _ => false

/-- The calls of `record_observation` in a run. -/
def recordCalls (events : List Event) : Nat := (events.filter Event.isRecord).length

theorem accepted_above (hreads : env.Reads) {events : List Event} (h : Bounded env n world)
    (hahead : Ahead m world) (hfew : n + recordCalls events < 2 ^ 64) :
    (∀ o ∈ accepted env world events, m < o.sequence)
      ∧ (accepted env world events).Pairwise (fun a b => a.sequence < b.sequence) := by
  induction events generalizing n m world with
  | nil => exact ⟨by simp [accepted], by simp [accepted]⟩
  | cons event events ih =>
    cases hrecord : event.isRecord with
    | false =>
      have hcalls : recordCalls (event :: events) = recordCalls events := by
        rw [recordCalls, filter_cons_of_neg (by rw [hrecord]; exact Bool.false_ne_true)]
        rfl
      have hother : ∀ call fates, event ≠ .record call fates := by
        intro call fates heq
        rw [heq] at hrecord
        cases hrecord
      obtain ⟨hbounded, hnext⟩ := step_bounded hreads (by omega) h hahead hother
      have hnone : acceptedBy env world event = none := by
        cases event with
        | record call fates => cases hrecord
        | _ => rfl
      rw [accepted, hnone]
      exact ih hbounded hnext (by omega)
    | true =>
      have hcalls : recordCalls (event :: events) = recordCalls events + 1 := by
        rw [recordCalls, filter_cons_of_pos hrecord]
        rfl
      obtain ⟨call, fates, rfl⟩ : ∃ call fates, event = .record call fates := by
        cases event with
        | record call fates => exact ⟨call, fates, rfl⟩
        | trim _ _ _ _ _ => cases hrecord
        | delete _ _ => cases hrecord
        | reopen _ _ => cases hrecord
      obtain ⟨hbounded, hhanded⟩ := record_bounded (by omega) h hahead call fates
      rw [accepted]
      cases haccepted : acceptedBy env world (.record call fates) with
      | none => exact ih hbounded hhanded.ahead (by omega)
      | some o =>
        have hresult : (recordObservation env call fates world).1 = .ok (.accepted o) := by
          simp only [acceptedBy] at haccepted
          split at haccepted
          · rename_i o' hresult
            cases haccepted
            exact hresult
          · cases haccepted
        obtain ⟨hm, ho⟩ := hhanded.accepted o hresult
        obtain ⟨habove, hpairs⟩ := ih (n := n + 1) hbounded ho (by omega)
        refine ⟨?_, pairwise_cons.mpr ⟨habove, hpairs⟩⟩
        intro x hx
        rcases mem_cons.mp hx with rfl | hx
        · exact hm
        · exact Nat.lt_trans hm (habove x hx)

/-- The numbers of the accepted observations of a workspace strictly increase, over
every run with failed, torn and crashed writes. -/
theorem sequence_numbers_never_reused (env : Env) (hreads : env.Reads) (events : List Event)
    (hfew : recordCalls events < 2 ^ 64 - 1) :
    ((accepted env World.fresh events).map (·.sequence)).Pairwise (· < ·) := by
  have hfresh : Bounded env 0 World.fresh := by
    refine ⟨Nat.le_refl 0, fun value hvalue => (by cases hvalue), ?_, ?_⟩
    · intro s bytes hbytes
      have hempty : (World.fresh.disk.segments)[s]? = none := TextMap.get_empty
      rw [hempty] at hbytes
      cases hbytes
    · intro s cache hcache
      have hempty : (World.fresh.inner.sessionCache)[s]? = none := TextMap.get_empty
      rw [hempty] at hcache
      cases hcache
  rw [pairwise_map]
  exact (accepted_above hreads hfresh ⟨Nat.zero_le _, Nat.zero_le _⟩ (by omega)).2

/-- A torn append, the same call again, and another call. -/
def tornRun : List Event :=
  [.record (sampleCall "k1" "6f6b2f3e-0c7d-4c1b-9a55-0d7b0f2a4c11") ⟨.done, .torn 20, .done⟩,
   .record (sampleCall "k1" "0b1e8a54-6f2d-4c3a-8e0f-5d2c7b9a1e22") .done,
   .record (sampleCall "k2" "c27d9e10-3b4a-4f5c-9d6e-1a2b3c4d5e33") .done]

theorem tornRun_accepted :
    (accepted sampleEnv.lineReader World.fresh tornRun).map (·.sequence) = [2, 3] := by
  decide +kernel

theorem tornRun_numbers :
    (accepted sampleEnv.lineReader World.fresh tornRun).map (·.sequence) = [2, 3]
      ∧ ((accepted sampleEnv.lineReader World.fresh tornRun).map (·.sequence)).Pairwise (· < ·) :=
  ⟨tornRun_accepted, sequence_numbers_never_reused _ (lineReader_reads sampleEnv_token) tornRun
    (by decide)⟩

end Orkworksd.Observations
