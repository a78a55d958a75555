import Mathlib.Algebra.Order.Ring.Int
import Orkworksd.Lib.Run

/- Persistence of a session's terminal size: `schedule_terminal_size_persist` and
   the worker it spawns. Requests and the worker share one queue behind a mutex;
   the write itself runs outside it, so a request can move the generation while a
   write is under way. The worker then drops the result of that write and loops.

   What is proved:
     1. `workers_le_one`: at most one worker runs, in every run.
     2. `durable_answer_written`: a request answered without a write finds its
        size on disk, in every run in which no successful write is lost from
        `durable_size` (`Recorded`).
     3. `dropped_write_answered_durable`: without that condition it fails. A size
        is durable, a second size is written and dropped, and the write of the
        first size then fails: the next request for the first size is told that it
        is durable. -/
namespace Orkworksd.Runtime.TerminalSize
open List

open Orkworksd.Lib

/-- Columns and rows. -/
abbrev Size := UInt16 × UInt16

/-- `TerminalSizePersistState`: what the completion channel last sent. -/
structure TerminalSizePersistState where
  generation : Nat
  result : Option (Except Unit Unit)

structure TerminalSizePersistQueue where
  generation : Nat
  running : Bool
  targetSize : Option Size
  durableSize : Option Size
  completion : TerminalSizePersistState

def TerminalSizePersistQueue.default : TerminalSizePersistQueue where
  generation := 0
  running := false
  targetSize := none
  durableSize := none
  completion := ⟨0, none⟩

/-- The completion a request gets: one that is already settled, or one that waits
for a generation of the queue. -/
inductive TerminalSizePersistCompletion where
  | completed
  | waits (targetGeneration : Nat)
  deriving DecidableEq, Repr

/-- What a request leaves behind: its completion, the queue and whether a worker
has to be started. -/
structure Scheduled where
  answer : TerminalSizePersistCompletion
  queue : TerminalSizePersistQueue
  startWorker : Bool

/-- The test that answers a request without a write. -/
def TerminalSizePersistQueue.holds (queue : TerminalSizePersistQueue) (size : Size) : Bool :=
  queue.durableSize = some size && (!queue.running || queue.targetSize = some size)

/-- `schedule_terminal_size_persist` under the queue's lock; `none` where the
generation counter is exhausted and the source panics. -/
def scheduleTerminalSizePersist (queue : TerminalSizePersistQueue) (rows cols : UInt16) :
    Option Scheduled :=
  let size := (cols, rows)
  if queue.holds size then
    some ⟨.completed, queue, false⟩
  else if queue.running && queue.targetSize = some size then
    some ⟨.waits queue.generation, queue, false⟩
  else if queue.generation + 1 < 2 ^ 64 then
    let generation := queue.generation + 1
    some ⟨.waits generation,
      { queue with generation := generation, targetSize := some size, running := true },
      !queue.running⟩
  else
    none

/-- What `persist_terminal_size_with_snapshot` returned to the worker: the size it
wrote, nothing, or the error of a task that did not finish. -/
abbrev WriteResult := Except Unit (Option Size)

/-- Where a worker stands in its loop. -/
inductive Worker where
  | looping
  | looked (generation : Nat)
  | holding (generation : Nat) (size : Size)
  | wrote (generation : Nat) (result : WriteResult)

/-- How a write ends: the size reaches the file, nothing is written, or the task
fails. -/
inductive WriteFate where
  | written | nothing | failed
  deriving DecidableEq, Repr

/-- One session: its queue, the size its runtime last applied, its workers and the
last size written. `unrecorded` is history: a write succeeded and `durable_size`
has not been set since. -/
structure System where
  queue : TerminalSizePersistQueue
  last : Size
  workers : List Worker
  written : Option Size
  unrecorded : Bool

def System.start (last : Size) : System where
  queue := .default
  last := last
  workers := []
  written := none
  unrecorded := false

inductive Action where
  | apply (rows cols : UInt16)
  | schedule (rows cols : UInt16)
  | look (worker : Nat)
  | snapshot (worker : Nat)
  | write (worker : Nat) (fate : WriteFate)
  | settle (worker : Nat)
  deriving DecidableEq, Repr

/-- The size a write put on disk, if it did. -/
def persistedSize : WriteResult → Option Size
  | .ok size => size
  | .error _ => none

/-- The worker under the queue's lock, after its write: it loops when its
generation was superseded and stops otherwise. -/
def settleQueue (queue : TerminalSizePersistQueue) (generation : Nat) (result : WriteResult) :
    Option TerminalSizePersistQueue :=
  if queue.generation = generation then
    some { queue with
      running := false
      durableSize := (persistedSize result).or queue.durableSize
      completion := ⟨generation, some (result.map (fun _ => ()))⟩ }
  else
    none

/-- One step of the session; `none` where the action cannot be taken. -/
def step (s : System) : Action → Option System
  | .apply rows cols => some { s with last := (cols, rows) }
  | .schedule rows cols =>
    (scheduleTerminalSizePersist s.queue rows cols).map (fun scheduled =>
      { s with
        queue := scheduled.queue
        workers := if scheduled.startWorker then s.workers ++ [.looping] else s.workers })
  | .look worker =>
    match s.workers[worker]? with
    | some .looping => some { s with workers := s.workers.set worker (.looked s.queue.generation) }
    | _ => none
  | .snapshot worker =>
    match s.workers[worker]? with
    | some (.looked generation) =>
      some { s with workers := s.workers.set worker (.holding generation s.last) }
    | _ => none
  | .write worker fate =>
    match s.workers[worker]? with
    | some (.holding generation size) =>
      match fate with
      | .written => some { s with
          workers := s.workers.set worker (.wrote generation (.ok (some size)))
          written := some size
          unrecorded := true }
      | .nothing => some { s with
          workers := s.workers.set worker (.wrote generation (.ok none)) }
      | .failed => some { s with
          workers := s.workers.set worker (.wrote generation (.error ())) }
    | _ => none
  | .settle worker =>
    match s.workers[worker]? with
    | some (.wrote generation result) =>
      match settleQueue s.queue generation result with
      | some queue => some { s with
          queue := queue
          workers := s.workers.eraseIdx worker
          unrecorded := s.unrecorded && (persistedSize result).isNone }
      | none => some { s with workers := s.workers.set worker .looping }
    | _ => none

def Step (s : System) (a : Action) (t : System) : Prop := step s a = some t

/-- No successful write is lost from `durable_size` at this step. While one is
unrecorded, no request takes the running half of the skip test, and the worker
does not stop on a write that wrote nothing. -/
def Recorded (s : System) : Action → Prop
  | .schedule rows cols =>
    s.unrecorded = true → ¬ (s.queue.running = true ∧ s.queue.durableSize = some (cols, rows) ∧
      s.queue.targetSize = some (cols, rows))
  | .settle worker =>
    ∀ result, s.workers[worker]? = some (.wrote s.queue.generation result) →
      persistedSize result = none → s.unrecorded = false
  | _ => True

/-! ## The queue's two operations -/

variable {queue : TerminalSizePersistQueue}

variable {scheduled : Scheduled} {cols rows : UInt16}

theorem schedule_cases (h : scheduleTerminalSizePersist queue rows cols = some scheduled) :
    (queue.holds (cols, rows) = true ∧ scheduled = ⟨.completed, queue, false⟩) ∨
    (queue.running = true ∧ scheduled = ⟨.waits queue.generation, queue, false⟩) ∨
    scheduled = ⟨.waits (queue.generation + 1),
      { queue with
        generation := queue.generation + 1
        targetSize := some (cols, rows)
        running := true },
      !queue.running⟩ := by
  unfold scheduleTerminalSizePersist at h
  dsimp only at h
  split at h
  · rename_i hholds
    exact .inl ⟨hholds, (Option.some.inj h).symm⟩
  · split at h
    · rename_i hjoin
      rw [Bool.and_eq_true] at hjoin
      exact .inr (.inl ⟨hjoin.1, (Option.some.inj h).symm⟩)
    · split at h
      · exact .inr (.inr (Option.some.inj h).symm)
      · cases h

theorem holds_of_completed (h : scheduleTerminalSizePersist queue rows cols = some scheduled)
    (hanswer : scheduled.answer = .completed) : queue.holds (cols, rows) = true := by
  rcases schedule_cases h with ⟨hholds, -⟩ | ⟨-, rfl⟩ | rfl
  · exact hholds
  · cases hanswer
  · cases hanswer

/-- A worker that stops leaves the queue idle, and its size recorded if it wrote
one. -/
theorem settleQueue_some {next : TerminalSizePersistQueue} {generation : Nat} {result : WriteResult}
    (h : settleQueue queue generation result = some next) :
    queue.generation = generation ∧ next.running = false ∧
      next.durableSize = (persistedSize result).or queue.durableSize := by
  unfold settleQueue at h
  split at h
  · rename_i hgen
    cases h
    exact ⟨hgen, rfl, rfl⟩
  · cases h

/-! ## One worker at a time -/

/-- No worker when the queue is idle and exactly one when it is running. -/
def OneWorker (s : System) : Prop :=
  (s.workers = [] ∧ s.queue.running = false) ∨ ∃ w, s.workers = [w] ∧ s.queue.running = true

theorem OneWorker.start (last : Size) : OneWorker (.start last) := .inl ⟨rfl, rfl⟩

variable {s : System}

variable {w : Worker} {worker : Nat}

theorem OneWorker.only (h : OneWorker s) (hw : s.workers[worker]? = some w) :
    worker = 0 ∧ s.workers = [w] ∧ s.queue.running = true := by
  rcases h with ⟨hnil, -⟩ | ⟨v, hone, hrunning⟩
  · rw [hnil] at hw
    cases hw
  · rw [hone] at hw
    cases worker with
    | zero =>
      cases hw
      exact ⟨rfl, hone, hrunning⟩
    | succ n => cases hw

theorem OneWorker.step {t : System} {a : Action} (h : OneWorker s) (hs : Step s a t) :
    OneWorker t := by
  unfold Step at hs
  cases a with
  | apply rows cols =>
    cases hs
    exact h
  | schedule rows cols =>
    simp only [TerminalSize.step, Option.map_eq_some_iff] at hs
    obtain ⟨scheduled, hscheduled, rfl⟩ := hs
    rcases schedule_cases hscheduled with ⟨-, rfl⟩ | ⟨-, rfl⟩ | rfl
    · exact h
    · exact h
    · rcases h with ⟨hnil, hidle⟩ | ⟨w, hone, hrunning⟩
      · exact .inr ⟨.looping, by simp [hnil, hidle], rfl⟩
      · exact .inr ⟨w, by simp [hone, hrunning], rfl⟩
  | look worker =>
    simp only [TerminalSize.step] at hs
    split at hs
    · rename_i hw
      cases hs
      obtain ⟨rfl, hone, hrunning⟩ := h.only hw
      exact .inr ⟨_, by simp only [hone]; rfl, hrunning⟩
    · cases hs
  | snapshot worker =>
    simp only [TerminalSize.step] at hs
    split at hs
    · rename_i hw
      cases hs
      obtain ⟨rfl, hone, hrunning⟩ := h.only hw
      exact .inr ⟨_, by simp only [hone]; rfl, hrunning⟩
    · cases hs
  | write worker fate =>
    simp only [TerminalSize.step] at hs
    split at hs
    · rename_i hw
      obtain ⟨rfl, hone, hrunning⟩ := h.only hw
      cases fate <;> cases hs <;> exact .inr ⟨_, by simp only [hone]; rfl, hrunning⟩
    · cases hs
  | settle worker =>
    simp only [TerminalSize.step] at hs
    split at hs
    · rename_i hw
      obtain ⟨rfl, hone, hrunning⟩ := h.only hw
      split at hs
      · rename_i hqueue
        cases hs
        exact .inl ⟨by simp only [hone]; rfl, (settleQueue_some hqueue).2.1⟩
      · cases hs
        exact .inr ⟨.looping, by simp only [hone]; rfl, hrunning⟩
    · cases hs

theorem workers_le_one {last : Size} {as : List Action} (h : Run Step (.start last) as s) :
    s.workers.length ≤ 1 := by
  rcases h.invariant OneWorker (.start last) OneWorker.step with ⟨hnil, -⟩ | ⟨w, hone, -⟩
  · rw [hnil]
    exact Nat.zero_le 1
  · rw [hone]
    exact Nat.le_refl 1

/-! ## The recorded size is the written one -/

/-- Outside the span between a successful write and its record, `durable_size` is
what was last written; and the span is over when the queue is idle. -/
structure Recording (s : System) : Prop where
  one : OneWorker s
  idle : s.queue.running = false → s.unrecorded = false
  durable : s.unrecorded = false → s.written = s.queue.durableSize
  held : ∀ generation size, Worker.wrote generation (.ok (some size)) ∈ s.workers →
    s.written = some size

theorem Recording.start (last : Size) : Recording (.start last) where
  one := .start last
  idle _ := rfl
  durable _ := rfl
  held generation size h := by cases h

/-- A worker that moves without a write keeps the recording, as long as it does not
claim one. -/
theorem Recording.moved (h : Recording s) {v : Worker} (hv : s.workers[worker]? = some v)
    (hone : OneWorker { s with workers := s.workers.set worker w })
    (hw : ∀ generation size, w ≠ .wrote generation (.ok (some size))) :
    Recording { s with workers := s.workers.set worker w } := by
  refine ⟨hone, h.idle, h.durable, ?_⟩
  intro generation size hmem
  obtain ⟨rfl, hone, -⟩ := h.one.only hv
  simp only [hone, set_cons_zero, mem_singleton] at hmem
  exact absurd hmem.symm (hw generation size)

theorem Recording.step {t : System} {a : Action} (h : Recording s) (hs : Step s a t)
    (ha : Recorded s a) : Recording t := by
  have hone := h.one.step hs
  unfold Step at hs
  cases a with
  | apply rows cols =>
    cases hs
    exact ⟨hone, h.idle, h.durable, h.held⟩
  | schedule rows cols =>
    simp only [TerminalSize.step, Option.map_eq_some_iff] at hs
    obtain ⟨scheduled, hscheduled, rfl⟩ := hs
    rcases schedule_cases hscheduled with ⟨-, rfl⟩ | ⟨-, rfl⟩ | rfl
    · exact ⟨hone, h.idle, h.durable, h.held⟩
    · exact ⟨hone, h.idle, h.durable, h.held⟩
    · refine ⟨hone, (by intro hidle; cases hidle), h.durable, ?_⟩
      intro generation size hmem
      refine h.held generation size ?_
      dsimp only at hmem
      split at hmem
      · rcases mem_append.mp hmem with hmem | hmem
        · exact hmem
        · rw [mem_singleton] at hmem
          cases hmem
      · exact hmem
  | look worker =>
    simp only [TerminalSize.step] at hs
    split at hs
    · rename_i hw
      cases hs
      exact h.moved hw hone (by intro _ _ heq; cases heq)
    · cases hs
  | snapshot worker =>
    simp only [TerminalSize.step] at hs
    split at hs
    · rename_i hw
      cases hs
      exact h.moved hw hone (by intro _ _ heq; cases heq)
    · cases hs
  | write worker fate =>
    simp only [TerminalSize.step] at hs
    split at hs
    · rename_i hw
      obtain ⟨rfl, hworkers, hrunning⟩ := h.one.only hw
      cases fate with
      | written =>
        cases hs
        refine ⟨hone, ?_, (by intro hrec; cases hrec), ?_⟩
        · intro hidle
          dsimp only at hidle
          rw [hrunning] at hidle
          cases hidle
        · intro generation size hmem
          simp only [hworkers, set_cons_zero, mem_singleton] at hmem
          cases hmem
          rfl
      | nothing =>
        cases hs
        exact h.moved hw hone (by intro _ _ heq; cases heq)
      | failed =>
        cases hs
        exact h.moved hw hone (by intro _ _ heq; cases heq)
    · cases hs
  | settle worker =>
    simp only [TerminalSize.step] at hs
    split at hs
    · rename_i generation result hw
      split at hs
      · rename_i queue hqueue
        cases hs
        obtain ⟨hgen, hidle, hdurable⟩ := settleQueue_some hqueue
        obtain ⟨rfl, hworkers, -⟩ := h.one.only hw
        subst hgen
        cases hresult : persistedSize result with
        | some size =>
          -- the write succeeded: its size becomes the durable one
          obtain rfl : result = .ok (some size) := by
            cases result with
            | ok value => exact congrArg _ hresult
            | error e => cases hresult
          refine ⟨hone, (by simp), ?_, (by simp [hworkers])⟩
          intro _
          rw [h.held s.queue.generation size (by simp [hworkers])]
          exact hdurable.symm
        | none =>
          -- the worker stops on a write that wrote nothing, and none is lost
          have hrec := ha result hw hresult
          refine ⟨hone, (by simp [hrec]), ?_, (by simp [hworkers])⟩
          intro _
          rw [hresult, Option.none_or] at hdurable
          rw [h.durable hrec, hdurable]
      · cases hs
        exact h.moved hw hone (by intro _ _ heq; cases heq)
    · cases hs

/-- A step of a run in which no successful write is lost. -/
def RecordedStep (s : System) (a : Action) (t : System) : Prop := Step s a t ∧ Recorded s a

/-- A request answered without a write finds its size on disk if no successful
write was lost from `durable_size`; and in no run do two workers run at a time. -/
theorem durable_answer_written (last : Size) :
    (∀ as s, Run Step (.start last) as s → s.workers.length ≤ 1) ∧
    ∀ as s, Run RecordedStep (.start last) as s →
      ∀ rows cols scheduled, Recorded s (.schedule rows cols) →
        scheduleTerminalSizePersist s.queue rows cols = some scheduled →
        scheduled.answer = .completed → s.written = some (cols, rows) := by
  refine ⟨fun as s h => workers_le_one h, ?_⟩
  intro as s hrun rows cols scheduled hcond hscheduled hanswer
  have h : Recording s := hrun.invariant Recording (.start last) (fun hrec hs => hrec.step hs.1 hs.2)
  have hholds := holds_of_completed hscheduled hanswer
  simp only [TerminalSizePersistQueue.holds, Bool.and_eq_true, Bool.or_eq_true, decide_eq_true_eq,
    Bool.not_eq_true'] at hholds
  obtain ⟨hdurable, hidle⟩ := hholds
  have hrec : s.unrecorded = false := by
    cases hunrec : s.unrecorded with
    | false => rfl
    | true =>
      rcases hidle with hidle | htarget
      · rw [h.idle hidle] at hunrec
        cases hunrec
      · cases hrunning : s.queue.running with
        | false =>
          rw [h.idle hrunning] at hunrec
          cases hunrec
        | true => exact absurd ⟨hrunning, hdurable, htarget⟩ (hcond hunrec)
  rw [h.durable hrec, hdurable]

/-- One size requested, written and settled: asking for it again is answered
without a write. -/
theorem written_size_answered_durable :
    ∃ as s scheduled, Run RecordedStep (.start (80, 24)) as s ∧
      scheduleTerminalSizePersist s.queue 24 80 = some scheduled ∧
      scheduled.answer = .completed ∧ s.written = some (80, 24) := by
  have hrun : ∃ as s, Run RecordedStep (.start (80, 24)) as s ∧ s.unrecorded = false ∧
      (scheduleTerminalSizePersist s.queue 24 80).map Scheduled.answer = some .completed := by
    refine ⟨[.settle 0, .write 0 .written, .snapshot 0, .look 0, .schedule 24 80], _,
      .next (.next (.next (.next (.next .start ⟨Eq.refl (some _), ?_⟩) ⟨Eq.refl (some _), trivial⟩)
        ⟨Eq.refl (some _), trivial⟩) ⟨Eq.refl (some _), trivial⟩) ⟨Eq.refl (some _), ?_⟩, rfl, rfl⟩
    · intro h
      cases h
    · intro result hw hnone
      cases hw
      cases hnone
  obtain ⟨as, s, hrun, hrec, hanswer⟩ := hrun
  obtain ⟨scheduled, hscheduled, hcompleted⟩ := Option.map_eq_some_iff.mp hanswer
  refine ⟨as, s, scheduled, hrun, hscheduled, hcompleted, ?_⟩
  refine (durable_answer_written _).2 _ s hrun 24 80 scheduled ?_ hscheduled hcompleted
  intro h
  rw [hrec] at h
  cases h

/-- The schedule of the lost write. 80×24 is written and recorded. 100×30 is
requested and written, but 80×24 is asked for again before the worker settles,
which drops that result; the write of 80×24 then fails and the worker stops. -/
def lostWrite : List Action :=
  [.schedule 24 80, .look 0, .snapshot 0, .write 0 .written, .settle 0,
   .apply 30 100, .schedule 30 100, .look 0, .snapshot 0, .write 0 .written,
   .apply 24 80, .schedule 24 80, .settle 0,
   .look 0, .snapshot 0, .write 0 .nothing, .settle 0]

/-- After the lost write the file holds 100×30 and a request for 80×24 is told
that its size is durable. -/
theorem dropped_write_answered_durable :
    ¬ ∀ last as s, Run Step (.start last) as s → ∀ rows cols scheduled,
      scheduleTerminalSizePersist s.queue rows cols = some scheduled →
      scheduled.answer = .completed → s.written = some (cols, rows) := by
  intro hclaim
  have hrun : ∃ s, lostWrite.foldlM step (.start (80, 24)) = some s ∧
      (scheduleTerminalSizePersist s.queue 24 80).map Scheduled.answer = some .completed ∧
      s.written = some (100, 30) := ⟨_, rfl, rfl, rfl⟩
  obtain ⟨s, hs, hanswer, hwritten⟩ := hrun
  obtain ⟨scheduled, hscheduled, hcompleted⟩ := Option.map_eq_some_iff.mp hanswer
  have hclaimed := hclaim _ _ s (Run.of_foldlM hs) 24 80 scheduled hscheduled hcompleted
  rw [hwritten] at hclaimed
  revert hclaimed
  decide

end Orkworksd.Runtime.TerminalSize
