import Orkworksd.SessionStore.WorkerCounters

/- Waiting in the queues of the session store's worker.

   A job in a queue has as many others before it as its index says. Only jobs of its own queue
   that are taken count this down, and nothing counts it up. Between the queues the burst
   decides: while a read is queued a mutation is taken only below eight, and while a mutation is
   queued a read only from eight on, after which the burst is zero.

   Main result: `waiting_bounded`. -/
namespace Orkworksd.SessionStoreWorker
open Lib List

def Label.takesRead : Label → Bool
  | .takeRead => true
  | _ => false

/-- A step during which the job stays in its queue. -/
def Queued (queue : Store → List Nat) (id : Nat) (s : Store) (label : Label) (s' : Store) : Prop :=
  Steps s label s' ∧ id ∈ queue s ∧ id ∈ queue s'

/-! ## The index in a queue -/

section Index

variable {queue queue' : List Nat} {id : Nat}

theorem idxOf_erase {other : Nat} (hne : other ≠ id) (queue : List Nat) :
    (queue.erase other).idxOf id ≤ queue.idxOf id := by
  induction queue with
  | nil => exact Nat.le_refl _
  | cons head rest ih =>
    rw [erase_cons]
    split
    · next heq =>
      have hother : head ≠ id := fun h => hne ((beq_iff_eq.mp heq).symm.trans h)
      rw [idxOf_cons_ne rest hother]
      exact Nat.le_succ _
    · by_cases hhead : head = id
      · rw [idxOf_cons_eq _ hhead]
        exact Nat.zero_le _
      · rw [idxOf_cons_ne _ hhead, idxOf_cons_ne _ hhead]
        exact Nat.succ_le_succ ih

theorem idxOf_moved (hmoved : Moved queue queue') (honce : queue.Nodup) (h : id ∈ queue)
    (h' : id ∈ queue') : queue'.idxOf id ≤ queue.idxOf id := by
  cases hmoved with
  | same => exact Nat.le_refl _
  | pushed other => rw [idxOf_append_of_mem h]
  | erased other =>
    have hne : other ≠ id := by
      intro heq
      subst heq
      exact honce.not_mem_erase h'
    exact idxOf_erase hne queue

theorem idxOf_tail (honce : queue.Nodup) (h : id ∈ queue.tail) :
    queue.tail.idxOf id + 1 = queue.idxOf id := by
  cases queue with
  | nil => cases h
  | cons head rest =>
    have hne : head ≠ id := fun heq => (nodup_cons.mp honce).1 (heq ▸ h)
    rw [idxOf_cons_ne rest hne, tail_cons]

end Index

/-! ## Runs while a job is queued -/

section Waits

variable {s s' : Store} {as bs : List Label} {id : Nat}

theorem taken_none {label : Label} (hm : label ≠ .takeMutation) (hr : label ≠ .takeRead) :
    label.takesMutation ≠ true ∧ label.takesRead ≠ true := by
  cases label <;> first | exact absurd rfl hm | exact absurd rfl hr |
    exact ⟨Bool.noConfusion, Bool.noConfusion⟩

theorem queued_reads (h : Run Steps start as s) (hfew : Few (bs ++ as))
    (hrun : Run (Queued Store.reads id) s bs s') :
    bs.countP Label.takesRead + s'.reads.idxOf id ≤ s.reads.idxOf id ∧
      (bs.countP Label.takesMutation : Int) ≤ 8 * bs.countP Label.takesRead + min s'.burst 8 := by
  induction hrun with
  | start =>
    have hburst := burst_run h hfew
    exact ⟨by simp, by rw [hburst]; simp⟩
  | @next bs t u label hrun hstep ih =>
    obtain ⟨hstep, hin, hin'⟩ := hstep
    obtain ⟨hindex, hcount⟩ := ih hfew.tail
    have hthere := h.append (hrun.mono (fun hs => hs.1))
    have honce := (run_ok hthere).readsOnce
    have hburst := burst_run (.next hthere hstep) hfew
    rcases burst_step hstep with ⟨rfl, hguard, -, -, hreads⟩ | ⟨rfl, hzero, -, -, hreads⟩ |
      ⟨hm, hr, hkept⟩
    · have hlt : t.burst < 8 := hguard.resolve_right (ne_nil_of_mem hin)
      rw [burst_run hthere hfew.tail] at hlt hcount
      rw [hreads, hburst, countP_cons_of_neg Bool.noConfusion, countP_cons_of_pos rfl, sinceRead]
      exact ⟨hindex, by omega⟩
    · have hfront := idxOf_tail honce (hreads ▸ hin')
      rw [hreads, hzero, countP_cons_of_pos rfl, countP_cons_of_neg Bool.noConfusion]
      exact ⟨by omega, by omega⟩
    · obtain ⟨hmutation, hread⟩ := taken_none hm hr
      have hback := idxOf_moved hkept.reads honce hin hin'
      rw [hkept.burst, countP_cons_of_neg hmutation, countP_cons_of_neg hread]
      exact ⟨by omega, hcount⟩

theorem queued_mutations (h : Run Steps start as s) (hfew : Few (bs ++ as))
    (hrun : Run (Queued Store.mutations id) s bs s') :
    bs.countP Label.takesMutation + s'.mutations.idxOf id ≤ s.mutations.idxOf id ∧
      (bs.countP Label.takesRead = 0 ∨
        8 * (bs.countP Label.takesRead : Int) + s'.burst ≤ bs.countP Label.takesMutation + 8) := by
  induction hrun with
  | start => exact ⟨by simp, .inl rfl⟩
  | @next bs t u label hrun hstep ih =>
    obtain ⟨hstep, hin, hin'⟩ := hstep
    obtain ⟨hindex, hcount⟩ := ih hfew.tail
    have hthere := h.append (hrun.mono (fun hs => hs.1))
    have honce := (run_ok hthere).mutationsOnce
    have hburst := burst_run hthere hfew.tail
    have hburst' := burst_run (.next hthere hstep) hfew
    rcases burst_step hstep with ⟨rfl, -, -, hmutations, -⟩ | ⟨rfl, hzero, hguard, hmutations, -⟩ |
      ⟨hm, hr, hkept⟩
    · have hfront := idxOf_tail honce (hmutations ▸ hin')
      rw [hmutations, hburst', countP_cons_of_pos rfl,
        countP_cons_of_neg Bool.noConfusion, sinceRead]
      exact ⟨by omega, by omega⟩
    · have hfull : ¬ t.burst < 8 := hguard.resolve_left (ne_nil_of_mem hin)
      rw [hmutations, hzero, countP_cons_of_neg Bool.noConfusion, countP_cons_of_pos rfl]
      exact ⟨hindex, by omega⟩
    · obtain ⟨hmutation, hread⟩ := taken_none hm hr
      have hback := idxOf_moved hkept.mutations honce hin hin'
      rw [hkept.burst, countP_cons_of_neg hmutation, countP_cons_of_neg hread]
      exact ⟨by omega, hcount⟩

end Waits

/-- While a read with `k` reads before it is queued, at most `k` reads and `8 * (k + 1)` mutations
are taken; while a mutation with `k` before it is queued, at most `k` mutations and `1 + k / 8`
reads are. -/
theorem waiting_bounded {as bs : List Label} {s : Store} (h : Run Steps start as s)
    (hfew : Few (bs ++ as)) (id : Nat) (s' : Store) :
    (Run (Queued Store.reads id) s bs s' →
      bs.countP Label.takesRead ≤ s.reads.idxOf id ∧
        bs.countP Label.takesMutation ≤ 8 * (s.reads.idxOf id + 1)) ∧
    (Run (Queued Store.mutations id) s bs s' →
      bs.countP Label.takesMutation ≤ s.mutations.idxOf id ∧
        bs.countP Label.takesRead ≤ 1 + s.mutations.idxOf id / 8) := by
  constructor
  · intro hrun
    obtain ⟨hindex, hcount⟩ := queued_reads h hfew hrun
    exact ⟨by omega, by omega⟩
  · intro hrun
    obtain ⟨hindex, hcount⟩ := queued_mutations h hfew hrun
    have hburst := burst_run (h.append (hrun.mono (fun hs => hs.1))) hfew
    exact ⟨by omega, by omega⟩

theorem few_of_length {as : List Label} (h : as.length < 2 ^ 31) : Few as := by
  intro later earlier heq
  have hle : sinceRead earlier ≤ earlier.length := by
    induction earlier generalizing later with
    | nil => exact Nat.le_refl _
    | cons label earlier ih =>
      have hrest := ih (later ++ [label]) (by rw [heq, append_assoc, singleton_append])
      cases label <;> simp only [sinceRead, length_cons] <;> omega
  rw [heq, length_append] at h
  omega

/-- A read and a mutation are queued, and the mutation is taken. -/
theorem waiting_bounded_read :
    ∃ s s', Run (Queued Store.reads 0) s [.takeMutation] s' ∧
      [Label.takeMutation].countP Label.takesMutation ≤ 8 * (s.reads.idxOf 0 + 1) := by
  let queued : List Label := [.prepare ⟨.get, some 9⟩, .prepare ⟨.internal, some 9⟩,
    .enqueue 0 false, .enqueue 1 false]
  have hrun : ((queued.foldlM Store.step start).bind fun s => (s.step .takeMutation).map fun t =>
      decide (0 ∈ s.reads ∧ 0 ∈ t.reads)) = some true := by decide
  obtain ⟨s, hqueued, hrest⟩ := Option.bind_eq_some_iff.mp hrun
  obtain ⟨s', hstep, hin⟩ := Option.map_eq_some_iff.mp hrest
  have htake : Run (Queued Store.reads 0) s [.takeMutation] s' :=
    .next .start ⟨hstep, of_decide_eq_true hin⟩
  have hfew : Few ([.takeMutation] ++ queued.reverse) := few_of_length (by decide)
  exact ⟨s, s', htake, ((waiting_bounded (Run.of_foldlM hqueued) hfew 0 s').1 htake).2⟩

end Orkworksd.SessionStoreWorker
