import Orkworksd.SessionStore.WorkerExecution

/- The queues, the counters and the burst of the session store's worker.

   `Store.Ok` joins what holds of every single command to the two queues, the job in the
   worker's hand and the three counters; `Store.Ok.update` is the one place where a step
   that changes a single command is accounted for.

   Main result: `worker_executes_once`. -/
namespace Orkworksd.SessionStoreWorker
open Lib List OrderedMap

/-! ## The invariant of the store -/

/-- The command has not been executed or rejected, and its reservation is alive. -/
def Cell.unexecuted (c : Cell) : Bool := c.place ≠ .released && c.pending

def Cell.liveBytes (c : Cell) : Int := if c.place = .released then 0 else c.bytes

def Cell.unexecutedRead (c : Cell) : Int := if c.unexecuted && c.read then 1 else 0

def Cell.unexecutedMutation (c : Cell) : Int := if c.unexecuted && !c.read then 1 else 0

/-- The worker's point where it has this command in hand. -/
def Store.point (s : Store) (id : Nat) : Option Point :=
  (s.worker.filter (fun hand => hand.1 = id)).map Prod.snd

structure Store.Ok (s : Store) : Prop where
  fresh : ∀ id ∈ OrderedMap.keys s.cells, id < s.nextId
  distinct : (OrderedMap.keys s.cells).Nodup
  cell : ∀ {id c}, s.cells.get id = some c → c.Ok (s.point id)
  inHand : ∀ {id p}, s.point id = some p → id ∈ OrderedMap.keys s.cells
  mutations : ∀ {id}, id ∈ s.mutations ↔
    ∃ c, s.cells.get id = some c ∧ c.place = .queued ∧ c.read = false
  reads : ∀ {id}, id ∈ s.reads ↔
    ∃ c, s.cells.get id = some c ∧ c.place = .queued ∧ c.read = true
  mutationsOnce : s.mutations.Nodup
  readsOnce : s.reads.Nodup
  bytes : s.bytes = OrderedMap.total Cell.liveBytes s.cells
  pendingReads : s.pendingReads = OrderedMap.total Cell.unexecutedRead s.cells
  pendingMutations : s.pendingMutations = OrderedMap.total Cell.unexecutedMutation s.cells
  bytesCap : s.bytes ≤ maxBytes
  readsCap : s.pendingReads ≤ maxPendingReads
  mutationsCap : s.pendingMutations ≤ maxPendingMutations

variable {s s' : Store} {id : Nat} {c c' : Cell}

variable {p : Point}

theorem point_of_worker (h : s.worker = some (id, p)) : s.point id = some p := by
  rw [Store.point, h, Option.filter_some, if_pos (by simp)]
  rfl

theorem point_of_other {j : Nat} (h : s.worker = some (id, p)) (hj : id ≠ j) :
    s.point j = none := by
  rw [Store.point, h, Option.filter_some, if_neg (by simpa using hj)]
  rfl

theorem point_of_idle (h : s.worker = none) (id : Nat) : s.point id = none := by
  rw [Store.point, h]
  rfl

/-- What a step does to one command, to its place in the queues and to the counters. -/
structure Updates (s : Store) (id : Nat) (c c' : Cell) (s' : Store) : Prop where
  cells : s'.cells = s.cells.set id c'
  nextId : s'.nextId = s.nextId
  others : ∀ j, id ≠ j → s'.point j = s.point j
  cell : c'.Ok (s'.point id)
  mutations : ∀ j, id ≠ j → (j ∈ s'.mutations ↔ j ∈ s.mutations)
  reads : ∀ j, id ≠ j → (j ∈ s'.reads ↔ j ∈ s.reads)
  mutation : id ∈ s'.mutations ↔ c'.place = .queued ∧ c'.read = false
  read : id ∈ s'.reads ↔ c'.place = .queued ∧ c'.read = true
  mutationsOnce : s'.mutations.Nodup
  readsOnce : s'.reads.Nodup
  bytes : s'.bytes = s.bytes - c.liveBytes + c'.liveBytes
  pendingReads : s'.pendingReads = s.pendingReads - c.unexecutedRead + c'.unexecutedRead
  pendingMutations :
    s'.pendingMutations = s.pendingMutations - c.unexecutedMutation + c'.unexecutedMutation
  lighter : c'.liveBytes ≤ c.liveBytes ∧ c'.unexecutedRead ≤ c.unexecutedRead ∧
    c'.unexecutedMutation ≤ c.unexecutedMutation

theorem Store.Ok.update (h : s.Ok) (hget : s.cells.get id = some c) (c' : Cell)
    (hup : Updates s id c c' s') : s'.Ok := by
  have hmem : id ∈ OrderedMap.keys s.cells :=
    get_isSome_iff.mp (by rw [hget]; rfl)
  have hkeys : OrderedMap.keys s'.cells = OrderedMap.keys s.cells := by
    rw [hup.cells]
    exact keys_set_of_mem hmem
  have hself : s'.cells.get id = some c' := by
    rw [hup.cells, get_set, if_pos rfl]
  have hother : ∀ j, id ≠ j → s'.cells.get j = s.cells.get j := by
    intro j hj
    rw [hup.cells, get_set, if_neg hj]
  have hqueue : ∀ {j : Nat} {read : Bool} {before after : Prop}, (id ≠ j → (after ↔ before)) →
      (before ↔ ∃ c, s.cells.get j = some c ∧ c.place = .queued ∧ c.read = read) →
      (id = j → (after ↔ c'.place = .queued ∧ c'.read = read)) →
      (after ↔ ∃ c, s'.cells.get j = some c ∧ c.place = .queued ∧ c.read = read) := by
    intro j read before after hne hbefore heq
    by_cases hj : id = j
    · subst hj
      rw [heq rfl, hself]
      simp
    · rw [hne hj, hbefore, hother j hj]
  have hlight := hup.lighter
  have hbytes := hup.bytes
  have hreads := hup.pendingReads
  have hmutations := hup.pendingMutations
  exact {
    fresh := by
      rw [hkeys, hup.nextId]
      exact h.fresh
    distinct := by
      rw [hkeys]
      exact h.distinct
    cell := by
      intro j c₀ hc₀
      by_cases hj : id = j
      · subst hj
        cases hself.symm.trans hc₀
        exact hup.cell
      · rw [hup.others j hj]
        exact h.cell ((hother j hj).symm.trans hc₀)
    inHand := by
      intro j p hp
      rw [hkeys]
      by_cases hj : id = j
      · exact hj ▸ hmem
      · rw [hup.others j hj] at hp
        exact h.inHand hp
    mutations := fun {j} => hqueue (hup.mutations j) h.mutations (fun heq => heq ▸ hup.mutation)
    reads := fun {j} => hqueue (hup.reads j) h.reads (fun heq => heq ▸ hup.read)
    mutationsOnce := hup.mutationsOnce
    readsOnce := hup.readsOnce
    bytes := by rw [hbytes, h.bytes, hup.cells, total_set_of_get hget]
    pendingReads := by rw [hreads, h.pendingReads, hup.cells, total_set_of_get hget]
    pendingMutations := by
      rw [hmutations, h.pendingMutations, hup.cells, total_set_of_get hget]
    bytesCap := by
      have hcap := h.bytesCap
      omega
    readsCap := by
      have hcap := h.readsCap
      omega
    mutationsCap := by
      have hcap := h.mutationsCap
      omega }

/-! ## Steps -/

/-- The reservation stays as it is. -/
structure Reserves (c c' : Cell) : Prop where
  bytes : c'.bytes = c.bytes
  read : c'.read = c.read
  pending : c'.pending = c.pending
  released : c'.place = .released ↔ c.place = .released

/-- And the job stays in its queue, or out of it. -/
structure Keeps (c c' : Cell) : Prop extends Reserves c c' where
  queued : c'.place = .queued ↔ c.place = .queued

theorem keeps_refl (c : Cell) : Keeps c c := ⟨⟨rfl, rfl, rfl, Iff.rfl⟩, Iff.rfl⟩

theorem keeps_place {place : Place} (hold : c.place ≠ .released ∧ c.place ≠ .queued)
    (hnew : place ≠ .released ∧ place ≠ .queued) : Keeps c { c with place := place } :=
  ⟨⟨rfl, rfl, rfl, iff_of_false hnew.1 hold.1⟩, iff_of_false hnew.2 hold.2⟩

theorem Reserves.weights (h : Reserves c c') : c'.liveBytes = c.liveBytes ∧
    c'.unexecutedRead = c.unexecutedRead ∧ c'.unexecutedMutation = c.unexecutedMutation := by
  have hplace : (c'.place ≠ .released) = (c.place ≠ .released) := by rw [ne_eq, h.released]
  have hun : c'.unexecuted = c.unexecuted := by
    simp only [Cell.unexecuted, hplace, h.pending]
  refine ⟨?_, ?_, ?_⟩
  · simp only [Cell.liveBytes, h.released, h.bytes]
  · simp only [Cell.unexecutedRead, hun, h.read]
  · simp only [Cell.unexecutedMutation, hun, h.read]

variable {now : Instant}

theorem act_keeps {a : Act} (hact : c.act now a = some c') : Keeps c c' := by
  have hcancel : Keeps c c.cancelWord := by
    unfold Cell.cancelWord
    split
    · exact ⟨⟨rfl, rfl, rfl, Iff.rfl⟩, Iff.rfl⟩
    · exact keeps_refl c
  have hmove : ∀ {place : Place} {ticket : Ticket}, c.place ≠ .released ∧ c.place ≠ .queued →
      place ≠ .released ∧ place ≠ .queued →
      Keeps c { c with place := place, ticket := ticket } := by
    intro place ticket hold hnew
    exact ⟨⟨rfl, rfl, rfl, iff_of_false hnew.1 hold.1⟩, iff_of_false hnew.2 hold.2⟩
  cases a <;> simp only [Cell.act] at hact
  case dropPrepared =>
    split at hact <;> cases hact
    rename_i hplace
    exact hmove (by simp [hplace]) (by simp)
  case receive =>
    split at hact
    · split at hact <;> cases hact
      · rename_i hplace
        exact hmove (by simp [hplace]) (by simp)
      · exact ⟨⟨rfl, rfl, rfl, Iff.rfl⟩, Iff.rfl⟩
      · exact ⟨⟨rfl, rfl, rfl, Iff.rfl⟩, Iff.rfl⟩
    · cases hact
  case cancelTicket =>
    split at hact <;> cases hact
    exact ⟨⟨hcancel.bytes, hcancel.read, hcancel.pending, hcancel.released⟩, hcancel.queued⟩
  case closeReceiver =>
    split at hact <;> cases hact
    by_cases hplace : c.place = .delivered
    · simp only [hplace, if_true]
      exact ⟨⟨rfl, rfl, rfl, by simp [hplace]⟩, by simp [hplace]⟩
    · simp only [hplace, if_false]
      exact ⟨⟨rfl, rfl, rfl, Iff.rfl⟩, Iff.rfl⟩
  case dropCancellation =>
    cases hact
    exact hcancel
  case dropReply =>
    split at hact <;> cases hact
    rename_i hplace
    exact keeps_place (by simp [hplace]) (by simp)
  all_goals
    -- the other actions leave the job where it is
    repeat' split at hact
    all_goals cases hact
    all_goals exact ⟨⟨rfl, rfl, rfl, Iff.rfl⟩, Iff.rfl⟩

variable {point : Point}

variable {w : Work} {next : Option Point}

theorem work_keeps (hplace : c.place = .taken) (hwork : c.work now point w = some (next, c')) :
    Keeps c c' := by
  have hold : c.place ≠ .released ∧ c.place ≠ .queued := by simp [hplace]
  cases w <;> simp only [Cell.work] at hwork
  case look =>
    split at hwork
    · split at hwork
      · cases hwork
        exact keeps_place hold (by simp)
      · split at hwork <;> cases hwork <;> exact keeps_refl c
    · cases hwork
  case reply =>
    split at hwork <;> cases hwork
    split
    · exact keeps_place hold (by simp)
    · exact keeps_place hold (by simp)
  all_goals
    repeat' split at hwork
    all_goals cases hwork
    all_goals exact ⟨⟨rfl, rfl, rfl, Iff.rfl⟩, Iff.rfl⟩

/-- What a step that leaves every reservation as it is does to the queues. -/
structure Requeues (s : Store) (id : Nat) (c' : Cell) (s' : Store) : Prop where
  cells : s'.cells = s.cells.set id c'
  nextId : s'.nextId = s.nextId
  counters : s'.bytes = s.bytes ∧ s'.pendingReads = s.pendingReads ∧
    s'.pendingMutations = s.pendingMutations
  others : ∀ j, id ≠ j → s'.point j = s.point j
  cell : c'.Ok (s'.point id)
  mutations : ∀ j, id ≠ j → (j ∈ s'.mutations ↔ j ∈ s.mutations)
  reads : ∀ j, id ≠ j → (j ∈ s'.reads ↔ j ∈ s.reads)
  mutation : id ∈ s'.mutations ↔ c'.place = .queued ∧ c'.read = false
  read : id ∈ s'.reads ↔ c'.place = .queued ∧ c'.read = true
  mutationsOnce : s'.mutations.Nodup
  readsOnce : s'.reads.Nodup

theorem Store.Ok.requeue (h : s.Ok) (hget : s.cells.get id = some c) (hres : Reserves c c')
    (hq : Requeues s id c' s') : s'.Ok := by
  obtain ⟨hbytes, hread, hmutation⟩ := hres.weights
  obtain ⟨hbytes', hreads', hmutations'⟩ := hq.counters
  exact h.update hget c' {
    hq with
    bytes := by omega
    pendingReads := by omega
    pendingMutations := by omega
    lighter := ⟨Int.le_of_eq hbytes, Int.le_of_eq hread, Int.le_of_eq hmutation⟩ }

theorem Store.Ok.keep (h : s.Ok) (hget : s.cells.get id = some c) (hkeeps : Keeps c c')
    {worker : Option (Nat × Point)}
    (hothers : ∀ j, id ≠ j → { s with worker := worker }.point j = s.point j)
    (hok : c'.Ok ({ s with worker := worker }.point id)) :
    ({ s with worker := worker }.setCell id c').Ok := by
  have hqueue : ∀ {read : Bool}, (∃ c, s.cells.get id = some c ∧ c.place = .queued ∧
      c.read = read) ↔ c'.place = .queued ∧ c'.read = read := by
    intro read
    rw [hget, hkeeps.queued, hkeeps.read]
    simp
  exact h.requeue hget hkeeps.toReserves {
    cells := rfl
    nextId := rfl
    counters := ⟨rfl, rfl, rfl⟩
    others := hothers
    cell := hok
    mutations := fun _ _ => Iff.rfl
    reads := fun _ _ => Iff.rfl
    mutation := h.mutations.trans hqueue
    read := h.reads.trans hqueue
    mutationsOnce := h.mutationsOnce
    readsOnce := h.readsOnce }

theorem nodup_push {queue : List Nat} (h : queue.Nodup) (hid : id ∉ queue) :
    (queue ++ [id]).Nodup := by
  refine nodup_append.mpr ⟨h, nodup_singleton id, ?_⟩
  intro a ha b hb heq
  rw [mem_singleton.mp hb] at heq
  exact hid (heq ▸ ha)

theorem enqueue_ok (h : s.Ok) (hget : s.cells.get id = some c) (hplace : c.place = .prepared)
    (gate : Bool) : (s.enqueue id c gate).Ok := by
  have hok := h.cell hget
  have hnotin : id ∉ s.mutations ∧ id ∉ s.reads := by
    rw [h.mutations, h.reads, hget]
    simp [hplace]
  unfold Store.enqueue
  split
  · refine h.keep hget ?_ (fun _ _ => rfl) ?_
    · exact ⟨⟨rfl, rfl, rfl, by simp [hplace]⟩, by simp [hplace]⟩
    · exact (hok.drop (by simp [hplace]) .dropping (.inr (.inl rfl))).moveTicket .dropping
  · have hqueued := hok.queue hplace gate
    have hres : Reserves c { c with place := .queued, gated := gate } :=
      ⟨rfl, rfl, rfl, by simp [hplace]⟩
    split
    · rename_i hread
      refine h.requeue hget hres {
        cells := rfl
        nextId := rfl
        counters := ⟨rfl, rfl, rfl⟩
        others := fun _ _ => rfl
        cell := hqueued
        mutations := fun _ _ => Iff.rfl
        reads := fun j hj => by simp [Store.setCell, Ne.symm hj]
        mutation := by simp [Store.setCell, hnotin.1, hread]
        read := by simp [hread]
        mutationsOnce := h.mutationsOnce
        readsOnce := nodup_push h.readsOnce hnotin.2 }
    · rename_i hread
      refine h.requeue hget hres {
        cells := rfl
        nextId := rfl
        counters := ⟨rfl, rfl, rfl⟩
        others := fun _ _ => rfl
        cell := hqueued
        mutations := fun j hj => by simp [Store.setCell, Ne.symm hj]
        reads := fun _ _ => Iff.rfl
        mutation := by simpa using hread
        read := by simp [Store.setCell, hnotin.2, hread]
        mutationsOnce := nodup_push h.mutationsOnce hnotin.1
        readsOnce := h.readsOnce }

theorem retire_ok (h : s.Ok) (hget : s.cells.get id = some c) : (s.retire id c).Ok := by
  have hok := h.cell hget
  have hticket : (s.setCell id { c with ticket := .closing }).Ok := by
    have hkeeps : Keeps c { c with ticket := .closing } := ⟨⟨rfl, rfl, rfl, Iff.rfl⟩, Iff.rfl⟩
    exact h.keep hget hkeeps (fun _ _ => rfl) (hok.moveTicket .closing)
  have hqueued : ∀ {read : Bool}, (∃ c, s.cells.get id = some c ∧ c.place = .queued ∧
      c.read = read) → c.place = .queued ∧ c.read = read := by
    intro read hex
    obtain ⟨c₀, hc₀, hplace⟩ := hex
    cases hget.symm.trans hc₀
    exact hplace
  have hdrop : c.place = .queued →
      Cell.Ok (s.point id) { c with place := .dropping, ticket := .closing } := by
    intro hplace
    exact (hok.drop (by simp [hplace]) .dropping (.inr (.inl rfl))).moveTicket .closing
  have hres : c.place = .queued → Reserves c { c with place := .dropping, ticket := .closing } :=
    fun hplace => ⟨rfl, rfl, rfl, by simp [hplace]⟩
  unfold Store.retire
  split
  · split
    · rename_i hmem
      obtain ⟨hplace, hread⟩ := hqueued (h.mutations.mp hmem)
      refine h.requeue hget (hres hplace) {
        cells := rfl
        nextId := rfl
        counters := ⟨rfl, rfl, rfl⟩
        others := fun _ _ => rfl
        cell := hdrop hplace
        mutations := fun j hj => mem_erase_of_ne (Ne.symm hj)
        reads := fun _ _ => Iff.rfl
        mutation := by simpa [Store.setCell] using h.mutationsOnce.not_mem_erase
        read := by
          have hno : id ∉ s.reads := by
            intro hmem'
            rw [(hqueued (h.reads.mp hmem')).2] at hread
            cases hread
          simpa [Store.setCell] using hno
        mutationsOnce := h.mutationsOnce.erase id
        readsOnce := h.readsOnce }
    · rename_i hno
      split
      · rename_i hmem
        obtain ⟨hplace, hread⟩ := hqueued (h.reads.mp hmem)
        refine h.requeue hget (hres hplace) {
          cells := rfl
          nextId := rfl
          counters := ⟨rfl, rfl, rfl⟩
          others := fun _ _ => rfl
          cell := hdrop hplace
          mutations := fun _ _ => Iff.rfl
          reads := fun j hj => mem_erase_of_ne (Ne.symm hj)
          mutation := by simpa [Store.setCell] using hno
          read := by simpa [Store.setCell] using h.readsOnce.not_mem_erase
          mutationsOnce := h.mutationsOnce
          readsOnce := h.readsOnce.erase id }
      · exact hticket
  · exact hticket

theorem weights_nonneg (c : Cell) :
    0 ≤ c.liveBytes ∧ 0 ≤ c.unexecutedRead ∧ 0 ≤ c.unexecutedMutation := by
  unfold Cell.liveBytes Cell.unexecutedRead Cell.unexecutedMutation
  refine ⟨?_, ?_, ?_⟩ <;> split <;> omega

theorem unpend_eq (s : Store) (hplace : c.place ≠ .released) :
    s.unpend c = { s with
      pendingReads := s.pendingReads - c.unexecutedRead
      pendingMutations := s.pendingMutations - c.unexecutedMutation } := by
  unfold Store.unpend
  cases hp : c.pending <;> cases hr : c.read <;>
    simp [Cell.unexecutedRead, Cell.unexecutedMutation, Cell.unexecuted, hplace, hp, hr]

/-- The reservation is dropped: its bytes go, and its place in the pending set if it still
has one. -/
theorem release_ok (h : s.Ok) (hget : s.cells.get id = some c) (hplace : c.place = .dropping) :
    (s.release id c).Ok := by
  have hok := h.cell hget
  have hlive : c.place ≠ .released := by simp [hplace]
  have hqueue : ∀ {read : Bool}, ¬ ∃ c, s.cells.get id = some c ∧ c.place = .queued ∧
      c.read = read := by
    intro read
    rw [hget]
    simp [hplace]
  have hbytes : c.liveBytes = c.bytes := if_neg hlive
  have hgone : Cell.liveBytes { c with place := .released } = 0 ∧
      Cell.unexecutedRead { c with place := .released } = 0 ∧
      Cell.unexecutedMutation { c with place := .released } = 0 := by
    simp [Cell.liveBytes, Cell.unexecutedRead, Cell.unexecutedMutation, Cell.unexecuted]
  have hweights := weights_nonneg c
  unfold Store.release
  rw [unpend_eq _ hlive]
  refine h.update hget { c with place := .released } {
    cells := rfl
    nextId := rfl
    others := fun _ _ => rfl
    cell := hok.drop (by simp [hplace]) .released (.inr (.inr rfl))
    mutations := fun _ _ => Iff.rfl
    reads := fun _ _ => Iff.rfl
    mutation := iff_of_false (fun hmem => hqueue (h.mutations.mp hmem)) (by simp)
    read := iff_of_false (fun hmem => hqueue (h.reads.mp hmem)) (by simp)
    mutationsOnce := h.mutationsOnce
    readsOnce := h.readsOnce
    bytes := by
      show s.bytes - c.bytes = _
      omega
    pendingReads := by
      show s.pendingReads - c.unexecutedRead = _
      omega
    pendingMutations := by
      show s.pendingMutations - c.unexecutedMutation = _
      omega
    lighter := by omega }

theorem executing_ok {next : Point} (h : s.Ok) (hget : s.cells.get id = some c)
    (hworker : s.worker = some (id, point))
    (hnext : point = .granted ∧ next = .executing ∨ point = .settled ∧ next = .replying) :
    (({ s with worker := some (id, next) }.unpend c).setCell id { c with pending := false }).Ok := by
  have hok : c.Ok (some point) := point_of_worker hworker ▸ h.cell hget
  have hplace := hok.placeTaken
  have hlive : c.place ≠ .released := by simp [hplace]
  have hqueue : ∀ {read : Bool}, ¬ ∃ c, s.cells.get id = some c ∧ c.place = .queued ∧
      c.read = read := by
    intro read
    rw [hget]
    simp [hplace]
  have hnew : Cell.Ok (some next) { c with pending := false } := hok.begin hnext
  have hgone : Cell.liveBytes { c with pending := false } = c.liveBytes ∧
      Cell.unexecutedRead { c with pending := false } = 0 ∧
      Cell.unexecutedMutation { c with pending := false } = 0 := by
    simp [Cell.liveBytes, Cell.unexecutedRead, Cell.unexecutedMutation, Cell.unexecuted]
  have hweights := weights_nonneg c
  rw [unpend_eq _ hlive]
  refine h.update hget { c with pending := false } {
    cells := rfl
    nextId := rfl
    others := fun j hj => by
      rw [point_of_other hworker hj]
      exact point_of_other rfl hj
    cell := by
      rw [show Store.point _ id = some next from point_of_worker rfl]
      exact hnew
    mutations := fun _ _ => Iff.rfl
    reads := fun _ _ => Iff.rfl
    mutation := iff_of_false (fun hmem => hqueue (h.mutations.mp hmem)) (by simp [hplace])
    read := iff_of_false (fun hmem => hqueue (h.reads.mp hmem)) (by simp [hplace])
    mutationsOnce := h.mutationsOnce
    readsOnce := h.readsOnce
    bytes := by
      show s.bytes = _
      omega
    pendingReads := by
      show s.pendingReads - c.unexecutedRead = _
      omega
    pendingMutations := by
      show s.pendingMutations - c.unexecutedMutation = _
      omega
    lighter := by omega }

theorem take_ok {mutations reads : List Nat} {burst : Int} (h : s.Ok)
    (hget : s.cells.get id = some c) (hworker : s.worker = none)
    (hqueues : (s.mutations = id :: mutations ∧ s.reads = reads) ∨
      (s.mutations = mutations ∧ s.reads = id :: reads)) :
    ({ s with mutations := mutations, reads := reads, burst := burst }.take id c).Ok := by
  have hplace : c.place = .queued := by
    have hmem : id ∈ s.mutations ∨ id ∈ s.reads := by
      rcases hqueues with ⟨heq, -⟩ | ⟨-, heq⟩
      · exact .inl (heq ▸ mem_cons_self)
      · exact .inr (heq ▸ mem_cons_self)
    rw [h.mutations, h.reads, hget] at hmem
    rcases hmem with ⟨c₀, hc₀, hplace, -⟩ | ⟨c₀, hc₀, hplace, -⟩
    · cases hc₀
      exact hplace
    · cases hc₀
      exact hplace
  have hmutations := h.mutationsOnce
  have hreads := h.readsOnce
  have hmutation : id ∈ s.mutations → c.read = false := by
    intro hmem
    obtain ⟨c₀, hc₀, -, hread⟩ := h.mutations.mp hmem
    cases hget.symm.trans hc₀
    exact hread
  have hread : id ∈ s.reads → c.read = true := by
    intro hmem
    obtain ⟨c₀, hc₀, -, hread⟩ := h.reads.mp hmem
    cases hget.symm.trans hc₀
    exact hread
  -- the job is in one queue only, and there only once
  have hgone : id ∉ mutations ∧ id ∉ reads ∧ mutations.Nodup ∧ reads.Nodup ∧
      (∀ j, id ≠ j → (j ∈ mutations ↔ j ∈ s.mutations)) ∧
      (∀ j, id ≠ j → (j ∈ reads ↔ j ∈ s.reads)) := by
    rcases hqueues with ⟨heq, hrest⟩ | ⟨hrest, heq⟩
    · rw [heq] at hmutations
      rw [hrest] at hreads hread
      refine ⟨(nodup_cons.mp hmutations).1, ?_, (nodup_cons.mp hmutations).2, hreads, ?_, ?_⟩
      · intro hmem
        have hfalse := hmutation (heq ▸ mem_cons_self)
        rw [hread hmem] at hfalse
        cases hfalse
      · intro j hj
        rw [heq, mem_cons]
        exact ⟨.inr, fun hmem => hmem.resolve_left (Ne.symm hj)⟩
      · intro j _
        rw [hrest]
    · rw [heq] at hreads
      rw [hrest] at hmutations hmutation
      refine ⟨?_, (nodup_cons.mp hreads).1, hmutations, (nodup_cons.mp hreads).2, ?_, ?_⟩
      · intro hmem
        have htrue := hread (heq ▸ mem_cons_self)
        rw [hmutation hmem] at htrue
        cases htrue
      · intro j _
        rw [hrest]
      · intro j hj
        rw [heq, mem_cons]
        exact ⟨.inr, fun hmem => hmem.resolve_left (Ne.symm hj)⟩
  obtain ⟨hno, hno', honce, honce', hothers, hothers'⟩ := hgone
  have hok : c.Ok none := point_of_idle hworker id ▸ h.cell hget
  refine h.requeue hget (⟨rfl, rfl, rfl, by simp [hplace]⟩ :
    Reserves c { c with place := .taken }) {
    cells := rfl
    nextId := rfl
    counters := ⟨rfl, rfl, rfl⟩
    others := fun j hj => by
      rw [point_of_idle hworker j]
      exact point_of_other rfl hj
    cell := by
      rw [show Store.point _ id = some .taken from point_of_worker rfl]
      exact hok.take hplace
    mutations := hothers
    reads := hothers'
    mutation := iff_of_false hno (by simp)
    read := iff_of_false hno' (by simp)
    mutationsOnce := honce
    readsOnce := honce' }

theorem prepared_ok (bytes : Nat) (read : Bool) (now : Instant) :
    Cell.Ok none (.prepared bytes read now) := by
  constructor <;> simp [Cell.prepared, Early]

theorem prepare_ok (h : s.Ok) (command : Command) : (s.prepare command).Ok := by
  have hnew : s.nextId ∉ OrderedMap.keys s.cells := fun hmem => Nat.lt_irrefl _ (h.fresh _ hmem)
  have hgone : s.cells.get s.nextId = none := get_eq_none_iff.mpr hnew
  have hbytes := h.bytesCap
  have hreads := h.readsCap
  have hmutations := h.mutationsCap
  unfold Store.prepare
  cases hreserve : command.reserve with
  | none => exact h
  | some bytes =>
    simp only
    split
    · exact h
    · split
      · exact h
      · rename_i hroom
        have hcell : ∀ {id c}, (s.cells.set s.nextId (.prepared bytes command.isRead s.now)).get id
            = some c → (s.nextId = id ∧ c = .prepared bytes command.isRead s.now) ∨
              (s.nextId ≠ id ∧ s.cells.get id = some c) := by
          intro id c hc
          rw [get_set] at hc
          split at hc
          · rename_i heq
            cases hc
            exact .inl ⟨heq, rfl⟩
          · rename_i hne
            exact .inr ⟨hne, hc⟩
        have hidle : s.point s.nextId = none := by
          cases hp : s.point s.nextId with
          | none => rfl
          | some p => exact absurd (h.inHand hp) hnew
        have hqueue : ∀ {id : Nat} {read : Bool},
            (∃ c, (s.cells.set s.nextId (.prepared bytes command.isRead s.now)).get id = some c ∧
              c.place = .queued ∧ c.read = read) ↔
            ∃ c, s.cells.get id = some c ∧ c.place = .queued ∧ c.read = read := by
          intro id read
          constructor
          · intro hex
            obtain ⟨c, hc, hplace, hread⟩ := hex
            rcases hcell hc with ⟨-, rfl⟩ | ⟨-, hold⟩
            · cases hplace
            · exact ⟨c, hold, hplace, hread⟩
          · intro hex
            obtain ⟨c, hc, hplace, hread⟩ := hex
            have hne : s.nextId ≠ id := by
              intro heq
              subst heq
              rw [hgone] at hc
              cases hc
            exact ⟨c, by rw [get_set, if_neg hne, hc], hplace, hread⟩
        exact {
          fresh := by
            intro id hid
            rw [keys_set_of_notMem hnew, mem_append, mem_singleton] at hid
            rcases hid with hid | hid
            · exact Nat.lt_succ_of_lt (h.fresh id hid)
            · exact hid ▸ Nat.lt_succ_self _
          distinct := nodup_keys_set h.distinct
          cell := by
            intro id c hc
            rcases hcell hc with ⟨heq, rfl⟩ | ⟨-, hold⟩
            · subst heq
              show Cell.Ok (s.point s.nextId) _
              rw [hidle]
              exact prepared_ok _ _ _
            · exact h.cell hold
          inHand := by
            intro id p hp
            rw [keys_set_of_notMem hnew]
            exact mem_append_left _ (h.inHand hp)
          mutations := h.mutations.trans hqueue.symm
          reads := h.reads.trans hqueue.symm
          mutationsOnce := h.mutationsOnce
          readsOnce := h.readsOnce
          bytes := by
            rw [total_set_of_notMem hnew, ← h.bytes]
            rfl
          pendingReads := by
            rw [total_set_of_notMem hnew, ← h.pendingReads]
            cases command.isRead <;> simp [Cell.unexecutedRead, Cell.unexecuted, Cell.prepared]
          pendingMutations := by
            rw [total_set_of_notMem hnew, ← h.pendingMutations]
            cases command.isRead <;>
              simp [Cell.unexecutedMutation, Cell.unexecuted, Cell.prepared]
          bytesCap := by
            show s.bytes + bytes ≤ _
            omega
          readsCap := by
            show (if command.isRead then s.pendingReads + 1 else s.pendingReads) ≤ _
            cases hread : command.isRead <;> simp [hread] at hroom ⊢ <;> omega
          mutationsCap := by
            show (if command.isRead then s.pendingMutations else s.pendingMutations + 1) ≤ _
            cases hread : command.isRead <;> simp [hread] at hroom ⊢ <;> omega }

theorem work_step (h : s.Ok) (hget : s.cells.get id = some c)
    (hworker : s.worker = some (id, point)) (hwork : c.work s.now point w = some (next, c')) :
    ({ s with worker := next.map (fun point => (id, point)) }.setCell id c').Ok := by
  have hok : c.Ok (some point) := point_of_worker hworker ▸ h.cell hget
  have hnew := work_ok hok hwork
  refine h.keep hget (work_keeps hok.placeTaken hwork) ?_ ?_
  · intro j hj
    rw [point_of_other hworker hj]
    cases next with
    | none => exact point_of_idle rfl j
    | some point' => exact point_of_other rfl hj
  · cases next with
    | none =>
      rw [point_of_idle rfl id]
      exact hnew
    | some point' =>
      rw [show Store.point _ id = some point' from point_of_worker rfl]
      exact hnew

variable {label : Label}

theorem step_ok (h : s.Ok) (hstep : s.step label = some s') : s'.Ok := by
  cases label with
  | tick duration =>
    cases hstep
    exact { h with }
  | prepare command =>
    cases hstep
    exact prepare_ok h command
  | enqueue id gate =>
    obtain ⟨c, hc, rfl⟩ := Option.map_eq_some_iff.mp hstep
    obtain ⟨hget, hplace⟩ := Option.filter_eq_some_iff.mp hc
    exact enqueue_ok h hget (by simpa using hplace) gate
  | act id act =>
    obtain ⟨c, hget, hstep⟩ := Option.bind_eq_some_iff.mp hstep
    obtain ⟨c', hact, rfl⟩ := Option.map_eq_some_iff.mp hstep
    exact h.keep hget (act_keeps hact) (fun _ _ => rfl) (act_ok (h.cell hget) hact)
  | retire id =>
    obtain ⟨c, hc, rfl⟩ := Option.map_eq_some_iff.mp hstep
    exact retire_ok h (Option.filter_eq_some_iff.mp hc).1
  | release id =>
    obtain ⟨c, hc, rfl⟩ := Option.map_eq_some_iff.mp hstep
    obtain ⟨hget, hplace⟩ := Option.filter_eq_some_iff.mp hc
    exact release_ok h hget (by simpa using hplace)
  | close =>
    cases hstep
    exact { h with }
  | takeMutation =>
    simp only [Store.step] at hstep
    split at hstep
    · rename_i hguard
      cases hqueue : s.mutations with
      | nil => simp [hqueue] at hstep
      | cons id rest =>
        simp only [hqueue] at hstep
        obtain ⟨c, hget, rfl⟩ := Option.map_eq_some_iff.mp hstep
        exact take_ok h hget hguard.1 (.inl ⟨hqueue, rfl⟩)
    · cases hstep
  | takeRead =>
    simp only [Store.step] at hstep
    split at hstep
    · rename_i hguard
      cases hqueue : s.reads with
      | nil => simp [hqueue] at hstep
      | cons id rest =>
        simp only [hqueue] at hstep
        obtain ⟨c, hget, rfl⟩ := Option.map_eq_some_iff.mp hstep
        exact take_ok h hget hguard.1 (.inr ⟨rfl, hqueue⟩)
    · cases hstep
  | work w =>
    obtain ⟨⟨id, point⟩, hworker, hstep⟩ := Option.bind_eq_some_iff.mp hstep
    obtain ⟨c, hget, hstep⟩ := Option.bind_eq_some_iff.mp hstep
    obtain ⟨⟨next, c'⟩, hwork, rfl⟩ := Option.map_eq_some_iff.mp hstep
    exact work_step h hget hworker hwork
  | executing =>
    obtain ⟨⟨id, point⟩, hworker, hstep⟩ := Option.bind_eq_some_iff.mp hstep
    obtain ⟨c, hget, hstep⟩ := Option.bind_eq_some_iff.mp hstep
    obtain ⟨next, hnext, rfl⟩ := Option.map_eq_some_iff.mp hstep
    refine executing_ok h hget hworker ?_
    cases point <;> simp_all
  | stop =>
    simp only [Store.step] at hstep
    split at hstep <;> cases hstep
    exact { h with }

def Steps (s : Store) (label : Label) (s' : Store) : Prop := s.step label = some s'

theorem start_ok : start.Ok := by
  constructor <;> simp [start, OrderedMap.keys, OrderedMap.get, OrderedMap.total, Store.point,
    maxBytes, maxPendingReads, maxPendingMutations]

variable {as : List Label}

theorem run_ok (h : Run Steps start as s) : s.Ok :=
  Run.invariant Store.Ok start_ok (fun hok hs => step_ok hok hs) h

/-! ## The burst -/

/-- The mutations taken since the last read, in labels newest first. -/
def sinceRead : List Label → Nat
  | [] => 0
  | .takeRead :: _ => 0
  | .takeMutation :: as => sinceRead as + 1
  | _ :: as => sinceRead as

/-- Fewer than `2 ^ 31` mutations between two reads. -/
def Few (as : List Label) : Prop :=
  ∀ later earlier, as = later ++ earlier → sinceRead earlier < 2 ^ 31

def Label.takesMutation : Label → Bool
  | .takeMutation => true
  | _ => false

/-- A step other than taking a read, while a read is queued. -/
def Waiting (s : Store) (label : Label) (s' : Store) : Prop :=
  Steps s label s' ∧ s.reads ≠ [] ∧ label ≠ .takeRead

theorem Few.tail (h : Few (label :: as)) : Few as := by
  intro later earlier heq
  exact h (label :: later) earlier (congrArg (label :: ·) heq)

theorem bmod_small {n : Int} (h0 : 0 ≤ n) (h : n < 2 ^ 31) : n.bmod (2 ^ 32) = n :=
  Int.bmod_eq_of_le (by omega) (by omega)

/-- Jobs are put in at the end of a queue, and taken out anywhere. -/
inductive Moved (queue : List Nat) : List Nat → Prop where
  | same : Moved queue queue
  | pushed (id : Nat) : Moved queue (queue ++ [id])
  | erased (id : Nat) : Moved queue (queue.erase id)

/-- No job was taken. -/
structure NoTake (s s' : Store) : Prop where
  burst : s'.burst = s.burst
  mutations : Moved s.mutations s'.mutations
  reads : Moved s.reads s'.reads

theorem unpend_noTake (s : Store) (c : Cell) : NoTake s (s.unpend c) := by
  unfold Store.unpend
  split
  · split <;> exact ⟨rfl, .same, .same⟩
  · exact ⟨rfl, .same, .same⟩

theorem prepare_noTake (s : Store) (command : Command) : NoTake s (s.prepare command) := by
  unfold Store.prepare
  split
  · exact ⟨rfl, .same, .same⟩
  · split
    · exact ⟨rfl, .same, .same⟩
    · split <;> exact ⟨rfl, .same, .same⟩

theorem enqueue_noTake (s : Store) (id : Nat) (c : Cell) (gate : Bool) :
    NoTake s (s.enqueue id c gate) := by
  unfold Store.enqueue
  split
  · exact ⟨rfl, .same, .same⟩
  · dsimp only
    split
    · exact ⟨rfl, .same, .pushed id⟩
    · exact ⟨rfl, .pushed id, .same⟩

theorem retire_noTake (s : Store) (id : Nat) (c : Cell) : NoTake s (s.retire id c) := by
  unfold Store.retire
  split
  · split
    · exact ⟨rfl, .erased id, .same⟩
    · split
      · exact ⟨rfl, .same, .erased id⟩
      · exact ⟨rfl, .same, .same⟩
  · exact ⟨rfl, .same, .same⟩

theorem burst_step (h : Steps s label s') :
    (label = .takeMutation ∧ (s.burst < 8 ∨ s.reads = []) ∧ s'.burst = s.nextBurst ∧
        s'.mutations = s.mutations.tail ∧ s'.reads = s.reads) ∨
      (label = .takeRead ∧ s'.burst = 0 ∧ (s.mutations = [] ∨ ¬ s.burst < 8) ∧
        s'.mutations = s.mutations ∧ s'.reads = s.reads.tail) ∨
      (label ≠ .takeMutation ∧ label ≠ .takeRead ∧ NoTake s s') := by
  unfold Steps at h
  cases label with
  | takeMutation =>
    simp only [Store.step] at h
    split at h
    · rename_i hguard
      split at h
      · cases h
      · rename_i hqueue
        obtain ⟨c, -, rfl⟩ := Option.map_eq_some_iff.mp h
        exact .inl ⟨rfl, hguard.2.2, rfl, by rw [hqueue]; rfl, rfl⟩
    · cases h
  | takeRead =>
    simp only [Store.step] at h
    split at h
    · rename_i hguard
      split at h
      · cases h
      · rename_i hqueue
        obtain ⟨c, -, rfl⟩ := Option.map_eq_some_iff.mp h
        exact .inr (.inl ⟨rfl, rfl, hguard.2.2, rfl, by rw [hqueue]; rfl⟩)
    · cases h
  | tick duration =>
    cases h
    exact .inr (.inr ⟨by simp, by simp, rfl, .same, .same⟩)
  | prepare command =>
    cases h
    exact .inr (.inr ⟨by simp, by simp, prepare_noTake s command⟩)
  | enqueue id gate =>
    obtain ⟨c, -, rfl⟩ := Option.map_eq_some_iff.mp h
    exact .inr (.inr ⟨by simp, by simp, enqueue_noTake s id c gate⟩)
  | act id act =>
    obtain ⟨c, -, h⟩ := Option.bind_eq_some_iff.mp h
    obtain ⟨c', -, rfl⟩ := Option.map_eq_some_iff.mp h
    exact .inr (.inr ⟨by simp, by simp, rfl, .same, .same⟩)
  | retire id =>
    obtain ⟨c, -, rfl⟩ := Option.map_eq_some_iff.mp h
    exact .inr (.inr ⟨by simp, by simp, retire_noTake s id c⟩)
  | release id =>
    obtain ⟨c, -, rfl⟩ := Option.map_eq_some_iff.mp h
    have hunpend := unpend_noTake { s with bytes := s.bytes - c.bytes } c
    exact .inr (.inr ⟨by simp, by simp, hunpend.burst, hunpend.mutations, hunpend.reads⟩)
  | close =>
    cases h
    exact .inr (.inr ⟨by simp, by simp, rfl, .same, .same⟩)
  | work w =>
    obtain ⟨hand, -, h⟩ := Option.bind_eq_some_iff.mp h
    obtain ⟨c, -, h⟩ := Option.bind_eq_some_iff.mp h
    obtain ⟨next, -, rfl⟩ := Option.map_eq_some_iff.mp h
    exact .inr (.inr ⟨by simp, by simp, rfl, .same, .same⟩)
  | executing =>
    obtain ⟨hand, -, h⟩ := Option.bind_eq_some_iff.mp h
    obtain ⟨c, -, h⟩ := Option.bind_eq_some_iff.mp h
    obtain ⟨next, -, rfl⟩ := Option.map_eq_some_iff.mp h
    have hunpend := unpend_noTake { s with worker := some (hand.1, next) } c
    exact .inr (.inr ⟨by simp, by simp, hunpend.burst, hunpend.mutations, hunpend.reads⟩)
  | stop =>
    simp only [Store.step] at h
    split at h <;> cases h
    exact .inr (.inr ⟨by simp, by simp, rfl, .same, .same⟩)

theorem burst_run (h : Run Steps start as s) (hfew : Few as) : s.burst = sinceRead as := by
  induction h with
  | start => rfl
  | @next as s t label hrun hstep ih =>
    have hburst := ih hfew.tail
    have hlt : sinceRead (label :: as) < 2 ^ 31 := hfew [] _ rfl
    rcases burst_step hstep with ⟨rfl, -, hnext, -⟩ | ⟨rfl, hnext, -⟩ | ⟨hm, hr, ⟨hnext, -, -⟩⟩
    · have hsmall : ((sinceRead as : Int) + 1).bmod (2 ^ 32) = sinceRead as + 1 := by
        apply bmod_small
        · omega
        · have hcount : sinceRead as + 1 < 2 ^ 31 := hlt
          omega
      rw [hnext, Store.nextBurst, hburst, hsmall]
      rfl
    · rw [hnext]
      rfl
    · have hsame : sinceRead (label :: as) = sinceRead as := by
        cases label <;> first | rfl | exact absurd rfl hm | exact absurd rfl hr
      rw [hnext, hburst, hsame]

theorem waiting_run {bs : List Label} (h : Run Steps start as s) (h' : Run Waiting s bs s')
    (hfew : Few (bs ++ as)) : (bs.countP Label.takesMutation : Int) ≤ s'.burst ∧
      (bs.countP Label.takesMutation = 0 ∨ s'.burst ≤ 8) := by
  induction h' with
  | start =>
    rw [burst_run h hfew]
    exact ⟨Int.natCast_nonneg _, .inl rfl⟩
  | @next bs t u label hrun hstep ih =>
    obtain ⟨hstep, hreads, hread⟩ := hstep
    obtain ⟨hcount, hcap⟩ := ih hfew.tail
    have hburst := burst_run (h.append (hrun.mono (fun hs => hs.1))) hfew.tail
    rcases burst_step hstep with ⟨rfl, hguard, hnext, -⟩ | ⟨heq, -⟩ | ⟨hm, -, ⟨hnext, -, -⟩⟩
    · have hlt : t.burst < 8 := hguard.resolve_right hreads
      have hnonneg : 0 ≤ t.burst := hburst ▸ Int.natCast_nonneg _
      have hsmall : (t.burst + 1).bmod (2 ^ 32) = t.burst + 1 :=
        bmod_small (by omega) (by omega)
      rw [hnext, Store.nextBurst, hsmall, countP_cons_of_pos rfl]
      exact ⟨by omega, .inr (by omega)⟩
    · exact absurd heq hread
    · have hsame : Label.takesMutation label ≠ true := by
        cases label <;> first | exact absurd rfl hm | exact Bool.noConfusion
      rw [hnext, countP_cons_of_neg hsame]
      exact ⟨hcount, hcap⟩

/-! ## Every run -/

theorem released_weights (hplace : c.place = .released) :
    c.liveBytes = 0 ∧ c.unexecutedRead = 0 ∧ c.unexecutedMutation = 0 := by
  simp [Cell.liveBytes, Cell.unexecutedRead, Cell.unexecutedMutation, Cell.unexecuted, hplace]

/-- In every interleaving: a command is executed at most once, never after its caller's wait
expired, its cancellation returned true or its grant failed, and a gated one only after
`execute` was called; the counters are those of the reservations, within their caps and above
zero, and zero when the last reservation is dropped; and while a read is queued at most eight
mutations are taken before it. -/
theorem worker_executes_once {as : List Label} (h : Run Steps start as s) :
    (∀ id c, s.cells.get id = some c →
      c.seen.executions ≤ 1 ∧
      (c.seen.waitExpired = true ∨ c.seen.cancelled = true ∨ c.seen.grantFailed = true →
        c.seen.executions = 0) ∧
      (c.gated = true → c.seen.executions ≠ 0 → c.seen.executeCalled = true) ∧
      (c.unexecuted = true → c.seen.executions = 0)) ∧
    (s.pendingReads = OrderedMap.total Cell.unexecutedRead s.cells ∧
      s.pendingMutations = OrderedMap.total Cell.unexecutedMutation s.cells ∧
      s.bytes = OrderedMap.total Cell.liveBytes s.cells) ∧
    (0 ≤ s.pendingReads ∧ s.pendingReads ≤ 8 ∧ 0 ≤ s.pendingMutations ∧
      s.pendingMutations ≤ 32 ∧ 0 ≤ s.bytes ∧ s.bytes ≤ 32 * 1024 * 1024) ∧
    ((∀ id c, s.cells.get id = some c → c.place = .released) →
      s.pendingReads = 0 ∧ s.pendingMutations = 0 ∧ s.bytes = 0) ∧
    ∀ bs s', Run Waiting s bs s' → Few (bs ++ as) → bs.countP Label.takesMutation ≤ 8 := by
  have hok := run_ok h
  refine ⟨?_, ⟨hok.pendingReads, hok.pendingMutations, hok.bytes⟩,
    ⟨?_, hok.readsCap, ?_, hok.mutationsCap, ?_, hok.bytesCap⟩, ?_, ?_⟩
  · intro id c hget
    have hc := hok.cell hget
    refine ⟨hc.once, ?_, ?_, ?_⟩
    · intro htold
      apply Classical.byContradiction
      intro hn
      obtain ⟨hword, -, hrun, -⟩ := hc.ran hn
      rcases htold with htold | htold | htold
      · rw [hc.waitExpired htold] at hword
        cases hword
      · rw [hc.cancelled htold] at hword
        cases hword
      · -- a failed grant is a gated command that was told `Expired`
        have hgate := hc.grantFailed htold
        cases hgated : c.gated with
        | false =>
          rw [hc.ungated hgated] at hgate
          cases hgate
        | true =>
          rw [hrun hgated] at hgate
          cases hgate
    · intro hgated hn
      exact hc.called ((hc.ran hn).2.2.1 hgated)
    · intro hun
      apply Classical.byContradiction
      intro hn
      simp [Cell.unexecuted, (hc.ran hn).2.1] at hun
  · rw [hok.pendingReads]
    exact total_nonneg (fun c => (weights_nonneg c).2.1) _
  · rw [hok.pendingMutations]
    exact total_nonneg (fun c => (weights_nonneg c).2.2) _
  · rw [hok.bytes]
    exact total_nonneg (fun c => (weights_nonneg c).1) _
  · intro hall
    have hzero : ∀ id c, s.cells.get id = some c →
        c.liveBytes = 0 ∧ c.unexecutedRead = 0 ∧ c.unexecutedMutation = 0 :=
      fun id c hget => released_weights (hall id c hget)
    rw [hok.pendingReads, hok.pendingMutations, hok.bytes]
    exact ⟨total_eq_zero hok.distinct (fun id c hget => (hzero id c hget).2.1),
      total_eq_zero hok.distinct (fun id c hget => (hzero id c hget).2.2),
      total_eq_zero hok.distinct (fun id c hget => (hzero id c hget).1)⟩
  · intro bs s' h' hfew
    obtain ⟨hcount, hcap⟩ := waiting_run h h' hfew
    omega

/-- A gated command that its caller lets run, up to the reply. -/
def gatedRun : List Label :=
  [.prepare ⟨.internal, some 100⟩, .enqueue 0 true, .takeMutation, .work .look, .work .age,
    .work (.offer true), .act 0 .grant, .act 0 .checkGrant, .act 0 .execute, .work .decide,
    .work .settle, .executing, .work .run, .executing, .work .reply, .act 0 .receive,
    .act 0 .dropReply, .release 0]

theorem gated_run_executes_once :
    ∃ s, gatedRun.foldlM Store.step start = some s ∧
      (s.cells.get 0).map (fun c => c.seen.executions) = some 1 ∧ s.bytes = 0 := by
  have hrun : (gatedRun.foldlM Store.step start).map (fun s =>
      ((s.cells.get 0).map (fun c => (c.seen.executions, c.place)), OrderedMap.keys s.cells)) =
      some (some (1, .released), [0]) := by
    decide
  obtain ⟨s, hfold, hseen⟩ := Option.map_eq_some_iff.mp hrun
  obtain ⟨hcell, hkeys⟩ := Prod.mk.inj hseen
  obtain ⟨c, hget, hc⟩ := Option.map_eq_some_iff.mp hcell
  obtain ⟨hone, hplace⟩ := Prod.mk.inj hc
  have hall := (worker_executes_once (Run.of_foldlM hfold)).2.2.2.1
  refine ⟨s, hfold, by rw [hget, Option.map_some, hone], (hall ?_).2.2⟩
  intro id c' hget'
  have hmem : id ∈ OrderedMap.keys s.cells := get_isSome_iff.mp (by rw [hget']; rfl)
  rw [hkeys, mem_singleton] at hmem
  subst hmem
  cases hget.symm.trans hget'
  exact hplace

end Orkworksd.SessionStoreWorker
