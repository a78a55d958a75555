import Orkworksd.Observations.Retention

/- What each operation of the store can do, case by case. Every invariant below is
   proved from these lemmas and not from the definitions. -/
namespace Orkworksd.Observations
open Taskmaster (Bytes)
open Lib (TextMap)
open Lib.TextMap
open Lib.Lines (newline)

/-! ## The parts of the store -/

namespace World

variable (world : World) (s a : String)

theorem segments_setFile (file : Option Bytes) :
    (world.setFile s file).disk.segments[a]? = if s = a then file else world.disk.segments[a]? := by
  cases file with
  | none => exact get_erase
  | some bytes => exact get_insert

theorem sessionCache_setCache (cache : SessionCache) :
    (world.setCache s cache).inner.sessionCache[a]?
      = if s = a then some cache else world.inner.sessionCache[a]? := get_insert

theorem sessionCache_forget :
    (world.forget s).inner.sessionCache[a]?
      = if s = a then none else world.inner.sessionCache[a]? := get_erase

end World

/-! ## Recording -/

/-- A call answers without touching the store, is refused by the rate limit, or goes on
to issue a number. -/
theorem recordObservation_cases (env : Env) (call : RecordCall) (fates : RecordFates)
    (world : World) :
    (∃ result, recordObservation env call fates world = (result, world)
        ∧ ∀ o, result ≠ .ok (.accepted o))
      ∨ ∃ sub, submission env call = .ok sub ∧ world.inner.degraded = false
          ∧ (world.inner.idempotency call.sessionId sub.keyHash).bind
              (remembered env call.now sub.payloadHash) = none
          ∧ (recordObservation env call fates world
                = (.error .rateLimited, world.setEntry call.sessionId sub.keyHash none)
              ∨ (acceptedInWindow env call.now (world.segment call.sessionId).cache
                    < maxAcceptedPerSessionMinute
                ∧ recordObservation env call fates world
                  = issue env call fates sub (world.setEntry call.sessionId sub.keyHash none))) := by
  cases hsub : submission env call with
  | error e =>
    refine .inl ⟨.error e, ?_, by simp⟩
    rw [recordObservation, hsub]
  | ok sub =>
    cases hdegraded : world.inner.degraded with
    | true =>
      refine .inl ⟨.error .degraded, ?_, by simp⟩
      simp only [recordObservation, hsub, hdegraded, if_true]
    | false =>
      cases hanswer : (world.inner.idempotency call.sessionId sub.keyHash).bind
          (remembered env call.now sub.payloadHash) with
      | some answer =>
        refine .inl ⟨answer, ?_, ?_⟩
        · simp only [recordObservation, hsub, hdegraded, Bool.false_eq_true, if_false, hanswer]
        · obtain ⟨entry, -, hentry⟩ := Option.bind_eq_some_iff.mp hanswer
          rw [remembered] at hentry
          split at hentry
          · split at hentry <;> cases hentry <;> simp
          · cases hentry
      | none =>
        refine .inr ⟨sub, rfl, rfl, hanswer, ?_⟩
        simp only [recordObservation, hsub, hdegraded, Bool.false_eq_true, if_false, hanswer]
        split
        · exact .inl rfl
        · rename_i hrate
          exact .inr ⟨Nat.lt_of_not_le hrate, rfl⟩

/-- The number a call issues. -/
def nextSequence (world : World) : Nat := (world.inner.lastIssuedSequence + 1) % 2 ^ 64

theorem issue_cases (env : Env) (call : RecordCall) (fates : RecordFates) (sub : Submission)
    (world : World) :
    (∃ counter, (counter = world.disk.counter ∨ counter = some (toString (nextSequence world)))
        ∧ issue env call fates sub world = (.error .persistFailed, world.setCounter counter))
      ∨ issue env call fates sub world
          = persist env call fates (storedObservation env call sub (nextSequence world))
              ((world.setCounter (some (toString (nextSequence world)))).setSequence
                (nextSequence world)) := by
  rw [issue]
  cases hcounter : fates.counter with
  | done => exact .inr rfl
  | failed replaced =>
    refine .inl ⟨if replaced then some (toString (nextSequence world)) else world.disk.counter,
      ?_, rfl⟩
    cases replaced
    · exact .inl rfl
    · exact .inr rfl

theorem persist_cases (env : Env) (call : RecordCall) (fates : RecordFates)
    (stored : StoredObservation) (world : World) :
    ∃ ok segment,
      appendOrRewrite env call.now fates.append fates.rewrite (world.segment call.sessionId) stored
          = (ok, segment)
        ∧ ((ok = true ∧ persist env call fates stored world
              = (.ok (.accepted stored.observation),
                ((world.setFile call.sessionId segment.file).setCache call.sessionId
                  segment.cache).setEntry call.sessionId stored.idempotencyKeyHash
                    (some (observationEntry stored).2)))
          ∨ (ok = false ∧ persist env call fates stored world
              = (.error .persistFailed,
                (world.setFile call.sessionId segment.file).setCache call.sessionId
                  segment.cache))) := by
  cases h : appendOrRewrite env call.now fates.append fates.rewrite
      (world.segment call.sessionId) stored with
  | mk ok segment =>
    refine ⟨ok, segment, rfl, ?_⟩
    rw [persist, h]
    cases ok with
    | true => exact .inl ⟨rfl, rfl⟩
    | false => exact .inr ⟨rfl, rfl⟩

theorem appendOrRewrite_cases (env : Env) (now : Timestamp) (append : AppendFate)
    (rewrite : WriteFate) (segment : Segment) (stored : StoredObservation) :
    (appends env now segment stored = true ∧
      ((append = .done ∧ appendOrRewrite env now append rewrite segment stored
          = (true, ⟨{ segment.cache with
              observations := segment.cache.observations ++ [stored] },
              some (segment.file.getD [] ++ line (serializeObservationLine env stored))⟩))
        ∨ (append = .refused ∧ appendOrRewrite env now append rewrite segment stored
          = (false, segment))
        ∨ ∃ written, append = .torn written ∧ appendOrRewrite env now append rewrite segment stored
          = (false, ⟨segment.cache, some (segment.file.getD []
              ++ (line (serializeObservationLine env stored)).take written)⟩)))
      ∨ (appends env now segment stored = false ∧
        ((rewrite = .done ∧ appendOrRewrite env now append rewrite segment stored
          = (true, ⟨rewritten env now segment.cache stored,
              some (render env (rewritten env now segment.cache stored).tombstones
                (rewritten env now segment.cache stored).observations)⟩))
        ∨ ∃ replaced, rewrite = .failed replaced
          ∧ appendOrRewrite env now append rewrite segment stored
            = (false, ⟨segment.cache, if replaced then
                some (render env (rewritten env now segment.cache stored).tombstones
                  (rewritten env now segment.cache stored).observations) else segment.file⟩))) := by
  rw [appendOrRewrite]
  cases happends : appends env now segment stored with
  | true =>
    refine .inl ⟨rfl, ?_⟩
    cases append with
    | done => exact .inl ⟨rfl, rfl⟩
    | refused => exact .inr (.inl ⟨rfl, rfl⟩)
    | torn written => exact .inr (.inr ⟨written, rfl, rfl⟩)
  | false =>
    refine .inr ⟨rfl, ?_⟩
    cases rewrite with
    | done => exact .inl ⟨rfl, rfl⟩
    | failed replaced => exact .inr ⟨replaced, rfl, rfl⟩

/-! ## Trim and restart -/

theorem applyTrimSession_cases (env : Env) (sessionId : String) (dropIds protectedIds : List String)
    (now : Timestamp) (fate : WriteFate) (world : World) :
    (applyTrimSession env sessionId dropIds protectedIds now fate world).2 = world
      ∨ ∃ cache, world.inner.degraded = false ∧ world.inner.sessionCache[sessionId]? = some cache
          ∧ ((fate = .done
              ∧ applyTrimSession env sessionId dropIds protectedIds now fate world
                = (some ((trimmed env cache.observations dropIds protectedIds).1.map
                    (·.observation.id)),
                  (world.setFile sessionId (some (render env
                    (trimmedCache env now cache dropIds protectedIds).tombstones
                    (trimmedCache env now cache dropIds protectedIds).observations))).setCache
                      sessionId (trimmedCache env now cache dropIds protectedIds)))
            ∨ ∃ replaced, fate = .failed replaced
              ∧ applyTrimSession env sessionId dropIds protectedIds now fate world
                = (none, world.setFile sessionId (if replaced then some (render env
                    (trimmedCache env now cache dropIds protectedIds).tombstones
                    (trimmedCache env now cache dropIds protectedIds).observations)
                  else world.disk.segments[sessionId]?))) := by
  rw [applyTrimSession]
  cases hdegraded : world.inner.degraded with
  | true => exact .inl rfl
  | false =>
    cases hcache : world.inner.sessionCache[sessionId]? with
    | none => exact .inl rfl
    | some cache =>
      cases hdropped : (trimmed env cache.observations dropIds protectedIds).1.isEmpty with
      | true =>
        simp only [Bool.false_eq_true, if_false, hdropped, if_true]
        exact .inl trivial
      | false =>
        refine .inr ⟨cache, rfl, rfl, ?_⟩
        simp only [Bool.false_eq_true, if_false, hdropped]
        cases fate with
        | done => exact .inl ⟨rfl, rfl⟩
        | failed replaced => exact .inr ⟨replaced, rfl, rfl⟩

section Open

variable (env : Env) (now : Timestamp) (fates : String → OpenFate) (disk : Disk) (s : String)

theorem readSegments_get : (readSegments env fates disk)[s]?
    = disk.segments[s]?.bind (fun bytes =>
        if fates s = .unreadable then none else some (tolerantParse env bytes)) :=
  get_filterMap

theorem segments_openStore : (openStore env now fates disk).disk.segments[s]?
    = disk.segments[s]?.map (openedFile env (fates s)) := get_map

theorem sessionCache_openStore : (openStore env now fates disk).inner.sessionCache[s]?
    = (readSegments env fates disk)[s]?.map openedCache := get_map

theorem openedFile_cases (fate : OpenFate) (bytes : Bytes) :
    openedFile env fate bytes = bytes ∨ ∃ validLen, fate = .read true
      ∧ (tolerantParse env bytes).crashTailValidLen = some validLen
      ∧ openedFile env fate bytes = bytes.take validLen := by
  unfold openedFile
  split
  · rename_i validLen hlen
    exact .inr ⟨validLen, rfl, hlen, rfl⟩
  · exact .inl rfl

end Open

end Orkworksd.Observations
