import Orkworksd.Runtime.HookReportRetention

/- Receipts of the hook-report relay are bounded, retried in turn and never renewed.

   `Turn` counts the whole passes that have left a pending name out: with each of them the
   name comes closer to the front of the retry order.

   Main result: `receipts_bounded_never_renewed`. -/
namespace Orkworksd.HookReportRelay
open Lib List

variable {N B S : Type}

/-! ## The turns of the retry order -/

/-- The reports a pass has still to take up; a scan only adds to its retries. -/
def Pass.left (pass : Pass N B S) : List N :=
  match pass.point with
  | .scan retries _ => retries
  | _ => pass.reports

def Label.finishes : Label N B S → Bool
  | .finish => true
  | _ => false

/-- The step takes up the report `n`. -/
def Visits (n : N) (r : Relay N B S) (label : Label N B S) : Prop :=
  ∃ pass reports cancelled now stamp, r.pass = some pass ∧ pass.point = .next ∧
    pass.reports = n :: reports ∧ label = .visit cancelled now stamp

/-- The pass is dropped, or its owner stops it. -/
def Cancels (r : Relay N B S) (label : Label N B S) : Prop :=
  label = .cancel ∨
    ∃ pass now stamp, r.pass = some pass ∧ pass.sql = true ∧ label = .visit true now stamp

/-- What `n` waits for: its place in the order comes `maxRetriesPerPass` closer with every
pass that leaves it out, and `k` passes have. -/
structure Turn [DecidableEq N] (n : N) (k : Nat) (r : Relay N B S) : Prop where
  pending : n ∈ r.book.keys
  passes : maxRetriesPerPass * k < maxPendingReceipts
  idle : r.pass = none →
    maxRetriesPerPass * k + r.book.retryOrder.idxOf n < maxPendingReceipts
  turn : ∀ {pass}, r.pass = some pass → n ∈ pass.left ∨
    maxRetriesPerPass * (k + 1) + r.book.retryOrder.idxOf n < maxPendingReceipts

theorem count_reports (pass : Pass N B S) (outcome : Outcome) :
    (pass.count outcome).reports = pass.reports := by
  cases outcome <;> rfl

theorem approvalApplied_reports [DecidableEq N] {r : Relay N B S} (pass : Pass N B S) (visit : Visit N S) (bytes : B) (t : Instant)
    (outcome : Outcome) :
    ∃ pass', (r.approvalApplied pass visit bytes t outcome).pass = some pass' ∧
      pass'.left = pass.reports := by
  unfold Relay.approvalApplied
  dsimp only
  split
  · exact ⟨_, rfl, count_reports pass outcome⟩
  · exact ⟨_, rfl, count_reports pass outcome⟩

section turns
variable [DecidableEq N] {r r' : Relay N B S} {label : Label N B S} {n : N} {k : Nat}

theorem idxOf_filter_ne_le {m : N} (hm : n ≠ m) (order : List N) :
    (order.filter (fun j => j ≠ m)).idxOf n ≤ order.idxOf n := by
  induction order with
  | nil => exact Nat.le_refl _
  | cons j order ih =>
    by_cases hjn : j = n
    · subst hjn
      rw [filter_cons_of_pos (by simpa using hm), idxOf_cons_self]
      exact Nat.zero_le _
    · by_cases hjm : j = m
      · rw [filter_cons_of_neg (by simpa using hjm), idxOf_cons_ne _ hjn]
        exact Nat.le_succ_of_le ih
      · rw [filter_cons_of_pos (by simpa using hjm), idxOf_cons_ne _ hjn,
          idxOf_cons_ne _ hjn]
        exact Nat.succ_le_succ ih

theorem move_place {book : ReceiptBook N B S} (hbooks : Books r.book)
    (h : BookMove r label book) (hmem : n ∈ r.book.keys) (hkept : ¬ Removes n r label)
    (hbegin : ∀ sql, label ≠ .begin sql) :
    book.retryOrder.idxOf n ≤ r.book.retryOrder.idxOf n := by
  cases h with
  | floored overflow observation => exact Nat.le_refl _
  | rotated heq => exact absurd heq (hbegin _)
  | updated bytes observation hget => exact Nat.le_refl _
  | admitted hnew hsource =>
    have horder : n ∈ r.book.retryOrder := hbooks.order.mem_iff.mpr hmem
    exact Nat.le_of_eq (idxOf_append_of_mem horder)
  | @removed m hremoves =>
    have hm : n ≠ m := by
      intro heq
      subst heq
      exact hkept hremoves
    exact idxOf_filter_ne_le hm _

theorem idxOf_rotate {order : List N} (hmem : n ∈ order) (c : Nat) (htake : n ∉ order.take c) :
    c + (order.drop c ++ order.take c).idxOf n = order.idxOf n := by
  have hdrop : n ∈ order.drop c := by
    rw [← take_append_drop c order, mem_append] at hmem
    exact hmem.resolve_left htake
  have hlength : c ≤ order.length := by
    apply Nat.le_of_not_lt
    intro hlt
    rw [drop_eq_nil_of_le (Nat.le_of_lt hlt)] at hdrop
    cases hdrop
  have hidx : order.idxOf n = (order.take c ++ order.drop c).idxOf n := by
    rw [take_append_drop]
  rw [hidx, idxOf_append_of_mem hdrop, idxOf_append_of_notMem htake, length_take,
    Nat.min_eq_left hlength]

theorem turn_begin (hbooks : Books r.book) (h : Turn n k r) (hpass : r.pass = none)
    (sql : Bool) : Turn n k (r.begin sql) := by
  have horder : n ∈ r.book.retryOrder := hbooks.order.mem_iff.mpr h.pending
  unfold Relay.begin
  rw [takeRetries_eq hbooks]
  refine ⟨h.pending, h.passes, (fun hnone => nomatch hnone), ?_⟩
  intro pass hpass'
  cases hpass'
  by_cases htake : n ∈ r.book.retryOrder.take maxRetriesPerPass
  · exact .inl htake
  · right
    have hplace := idxOf_rotate horder maxRetriesPerPass htake
    have hidle := h.idle hpass
    show maxRetriesPerPass * (k + 1) + (r.book.retryOrder.drop maxRetriesPerPass ++
      r.book.retryOrder.take maxRetriesPerPass).idxOf n < maxPendingReceipts
    rw [Nat.mul_succ]
    omega

theorem Turn.goes_on {pass pass' : Pass N B S} (h : Turn n k r) (hpass : r.pass = some pass)
    (hleft : pass.left = pass.reports) (hpass' : r'.pass = some pass')
    (hreports : pass'.left = pass.reports) (hmem : n ∈ r'.book.keys)
    (hplace : r'.book.retryOrder.idxOf n ≤ r.book.retryOrder.idxOf n) : Turn n k r' := by
  refine ⟨hmem, h.passes, fun hnone => ?_, ?_⟩
  · rw [hpass'] at hnone
    cases hnone
  · intro pass'' hpass''
    obtain rfl : pass' = pass'' := Option.some.inj (hpass'.symm.trans hpass'')
    rcases h.turn hpass with hturn | hturn
    · rw [hleft, ← hreports] at hturn
      exact .inl hturn
    · exact .inr (by omega)

end turns

section runs
variable [LinearOrder N] [DecidableEq B] {isReportFilename : N → Bool}
  {as bs : List (Label N B S)} {r r' : Relay N B S} {label : Label N B S} {n : N} {k : Nat}

variable (pass : Pass N B S) (visit : Visit N S) (kind : Kind) (bytes : B)

theorem inspect_reports : ∃ pass', (r.inspect pass visit kind bytes).pass = some pass' ∧
      pass'.left = pass.reports := by
  unfold Relay.inspect
  dsimp only
  split
  · exact ⟨_, rfl, rfl⟩
  · split
    · exact ⟨_, rfl, rfl⟩
    · exact ⟨_, rfl, rfl⟩

theorem retain_reports (t : Instant) (full : Bool) :
    ∃ pass', (r.retain pass visit kind bytes t full).pass = some pass' ∧
      pass'.left = pass.reports := by
  unfold Relay.retain
  cases kind with
  | identity =>
    dsimp only
    split
    · split
      · exact ⟨_, rfl, rfl⟩
      · split
        · exact ⟨_, rfl, rfl⟩
        · exact ⟨_, rfl, rfl⟩
    · exact ⟨_, rfl, rfl⟩
  | approval =>
    dsimp only
    split
    · exact ⟨_, rfl, rfl⟩
    · split
      · exact ⟨_, rfl, rfl⟩
      · exact ⟨_, rfl, rfl⟩

/-- The steps of uncancelled passes while `n` stays pending. -/
def Undisturbed (isReportFilename : N → Bool) (n : N) (r : Relay N B S) (label : Label N B S)
    (r' : Relay N B S) : Prop :=
  Keeping isReportFilename n r label r' ∧ ¬ Cancels r label

theorem turn_step (hbooks : Books r.book) (h : Turn n k r)
    (hstep : Undisturbed isReportFilename n r label r') (hvisit : ¬ Visits n r label) :
    Turn n (if label.finishes then k + 1 else k) r' := by
  obtain ⟨⟨hs, hkept⟩, hcancel⟩ := hstep
  have hcase := step_case hs
  have hmove := step_move hcase
  have hmem : n ∈ r'.book.keys := by
    obtain ⟨e, he⟩ := get_of_mem h.pending
    obtain ⟨e', he', -⟩ := move_entry hmove he hkept
    exact mem_keys he'
  have hplace : (∀ sql, label ≠ .begin sql) →
      r'.book.retryOrder.idxOf n ≤ r.book.retryOrder.idxOf n :=
    move_place hbooks hmove h.pending hkept
  cases hcase with
  | @begin sql hpass => exact turn_begin hbooks h hpass sql
  | @unlinkRan id name gone hunlink =>
    have hle := hplace (fun sql heq => nomatch heq)
    refine ⟨hmem, h.passes, fun hnone => ?_, fun hpass => ?_⟩
    · have hidle := h.idle hnone
      show maxRetriesPerPass * k + _ < _
      omega
    · show _ ∨ maxRetriesPerPass * (k + 1) + _ < _
      rcases h.turn hpass with hturn | hturn
      · exact .inl hturn
      · exact .inr (by omega)
  | cancel => exact absurd (.inl rfl) hcancel
  | stopped hpass hsql => exact absurd (.inr ⟨_, _, _, hpass, hsql, rfl⟩) hcancel
  | @scanned pass retries excluded fresh pages hpass hpoint =>
    refine ⟨hmem, h.passes, (fun hnone => nomatch hnone), ?_⟩
    intro pass' hpass'
    cases hpass'
    rcases h.turn hpass with hturn | hturn
    · rw [Pass.left, hpoint] at hturn
      exact .inl (mem_append_left fresh hturn)
    · exact .inr hturn
  | @visit pass name reports cancelled now stamp hpass hpoint hreports =>
    have hle := hplace (fun sql heq => nomatch heq)
    refine ⟨hmem, h.passes, (fun hnone => nomatch hnone), ?_⟩
    intro pass' hpass'
    cases hpass'
    show _ ∨ maxRetriesPerPass * (k + 1) + _ < _
    rcases h.turn hpass with hturn | hturn
    · simp only [Pass.left, hpoint, hreports] at hturn
      rcases mem_cons.mp hturn with heq | hturn
      · subst heq
        exact absurd ⟨pass, reports, cancelled, now, stamp, hpass, hpoint, hreports, rfl⟩ hvisit
      · exact .inl hturn
    · exact .inr (by omega)
  | @finish pass hpass hpoint hreports =>
    -- the pass took up every report of its list, and `n` was not among them
    have hplace : maxRetriesPerPass * (k + 1) + r.book.retryOrder.idxOf n <
        maxPendingReceipts := by
      rcases h.turn hpass with hturn | hturn
      · simp only [Pass.left, hpoint, hreports] at hturn
        cases hturn
      · exact hturn
    exact ⟨hmem, Nat.lt_of_le_of_lt (Nat.le_add_right _ _) hplace, (fun _ => hplace),
      (fun hsome => nomatch hsome)⟩
  | @read pass visit kind bytes hpass hpoint =>
    exact h.goes_on hpass (by rw [Pass.left, hpoint]) rfl rfl hmem (hplace (fun sql heq => nomatch heq))
  | @unread pass visit hpass hpoint =>
    exact h.goes_on hpass (by rw [Pass.left, hpoint]) rfl rfl hmem (hplace (fun sql heq => nomatch heq))
  | @inspect pass visit kind bytes hpass hpoint =>
    obtain ⟨pass', hpass', hreports⟩ := inspect_reports (r := r) pass visit kind bytes
    exact h.goes_on hpass (by rw [Pass.left, hpoint]) hpass' hreports hmem
      (hplace (fun sql heq => nomatch heq))
  | @retain pass visit kind bytes t full hpass hpoint =>
    obtain ⟨pass', hpass', hreports⟩ := retain_reports (r := r) pass visit kind bytes t full
    exact h.goes_on hpass (by rw [Pass.left, hpoint]) hpass' hreports hmem
      (hplace (fun sql heq => nomatch heq))
  | @identityKept pass visit stamp outcome hpass hpoint =>
    exact h.goes_on hpass (by rw [Pass.left, hpoint]) rfl (count_reports pass outcome) hmem
      (hplace (fun sql heq => nomatch heq))
  | @identityDone pass visit stamp outcome hpass hpoint =>
    exact h.goes_on hpass (by rw [Pass.left, hpoint]) rfl (count_reports pass outcome) hmem
      (hplace (fun sql heq => nomatch heq))
  | @approval pass visit bytes t outcome hpass hpoint =>
    obtain ⟨pass', hpass', hreports⟩ :=
      approvalApplied_reports (r := r) pass visit bytes t outcome
    exact h.goes_on hpass (by rw [Pass.left, hpoint]) hpass' hreports hmem
      (hplace (fun sql heq => nomatch heq))
  | @unlinkDone pass id hpass hpoint =>
    exact h.goes_on hpass (by rw [Pass.left, hpoint]) rfl rfl hmem (hplace (fun sql heq => nomatch heq))

/-- Whole passes that leave `n` out bring it to the front, where the next one takes it up. -/
theorem turn_run (h : Run (Steps isReportFilename) start as r) (hpass : r.pass = none)
    (hmem : n ∈ r.book.keys) (h' : Run (Undisturbed isReportFilename n) r bs r') :
    Occurred (Undisturbed isReportFilename n) r (fun _ => False)
      (fun _ s a _ => Visits n s a) bs ∨ Turn n (bs.countP Label.finishes) r' := by
  refine Run.history (fun bs s => Occurred (Undisturbed isReportFilename n) r (fun _ => False)
    (fun _ s a _ => Visits n s a) bs ∨ Turn n (bs.countP Label.finishes) s) ?_ ?_ h'
  · have hbooks := (flight_run h).books
    have hidx := idxOf_lt_length_of_mem (hbooks.order.mem_iff.mpr hmem)
    have hbound : r.book.retryOrder.length ≤ maxPendingReceipts :=
      Nat.le_trans (Nat.le_of_eq hbooks.order.length_eq) hbooks.bounded
    refine .inr ⟨hmem, Nat.zero_lt_succ _, fun _ => ?_, fun hsome => ?_⟩
    · show maxRetriesPerPass * 0 + _ < _
      omega
    · rw [hpass] at hsome
      cases hsome
  · intro bs s label t hrun ih hstep
    rcases ih with hvisited | hturn
    · exact .inl (hvisited.later (fun hno => hno))
    · by_cases hvisit : Visits n s label
      · exact .inl (Occurred.here hrun hstep hvisit)
      · have hbooks := (flight_run (h.append (hrun.mono (fun hs => hs.1.1)))).books
        have hnext := turn_step hbooks hturn hstep hvisit
        rw [countP_cons]
        split at hnext <;> rename_i hfinish
        · rw [if_pos hfinish]
          exact .inr hnext
        · rw [if_neg hfinish]
          exact .inr hnext

theorem visited_run (h : Run (Steps isReportFilename) start as r) (hpass : r.pass = none)
    (hmem : n ∈ r.book.keys) (h' : Run (Undisturbed isReportFilename n) r bs r')
    (hpasses : (maxPendingReceipts + maxRetriesPerPass - 1) / maxRetriesPerPass ≤
      bs.countP Label.finishes) :
    Occurred (Undisturbed isReportFilename n) r (fun _ => False)
      (fun _ s a _ => Visits n s a) bs := by
  rcases turn_run h hpass hmem h' with hvisited | hturn
  · exact hvisited
  · -- the place of `n` would be before the front of the order
    have hk : 4 ≤ bs.countP Label.finishes := hpasses
    have hmul := Nat.mul_le_mul_left maxRetriesPerPass hk
    exact absurd hturn.passes (Nat.not_lt_of_le hmul)

end runs

/-- In every state that passes and unlinks lead to: the pending receipts are within the bound
and the retry order lists each of their names once; a name that stays pending is taken up
within so many whole passes; a pending receipt keeps its time, its stamp and its bytes until
its file is gone; and a floor stays what it is and is the time, or the stamp, of every name
admitted from then on. The one receipt that comes back with another time is the one an unlink
took away from under a pass that had read it. -/
theorem receipts_bounded_never_renewed [LinearOrder N] [DecidableEq B]
    (isReportFilename : N → Bool) {as : List (Label N B S)} {r : Relay N B S}
    (h : Run (Steps isReportFilename) start as r) :
    (r.book.pending.length ≤ maxPendingReceipts ∧ r.book.retryOrder.Nodup ∧
      r.book.retryOrder.Perm r.book.keys) ∧
    (∀ {n bs r'}, r.pass = none → n ∈ r.book.keys → Run (Undisturbed isReportFilename n) r bs r' →
      (maxPendingReceipts + maxRetriesPerPass - 1) / maxRetriesPerPass ≤ bs.countP Label.finishes →
      Occurred (Undisturbed isReportFilename n) r (fun _ => False)
        (fun _ s a _ => Visits n s a) bs) ∧
    (∀ {n e bs r'}, r.book.pending.get n = some e → Run (Keeping isReportFilename n) r bs r' →
      ∃ e', r'.book.pending.get n = some e' ∧ Extends e e') ∧
    ∀ {bs r'}, Run (Steps isReportFilename) r bs r' →
      (∀ f, r.book.overflowFloor = some f → r'.book.overflowFloor = some f ∧
        ∀ n, n ∉ r.book.keys →
          (∀ e, r'.book.pending.get n = some e →
            e.firstReceipt = f ∨ WasDetached isReportFilename n e.firstReceipt (bs ++ as)) ∧
          ∀ pass visit bytes t, r'.pass = some pass → pass.point = .approval visit bytes t →
            visit.name = n → t = f ∨ WasDetached isReportFilename n t (bs ++ as)) ∧
      (∀ stamp, r.book.observationFloor = some stamp → r'.book.observationFloor = some stamp ∧
        ∀ n, n ∉ r.book.keys → ∀ e, r'.book.pending.get n = some e →
          e.observation = none ∨ e.observation = some stamp) := by
  have hbooks := (flight_run h).books
  have hlength : r.book.pending.length ≤ maxPendingReceipts :=
    length_keys r.book ▸ hbooks.bounded
  refine ⟨⟨hlength, hbooks.order.nodup_iff.mpr hbooks.distinct, hbooks.order⟩,
    visited_run h, entry_run, ?_⟩
  intro bs r' h'
  have hfloors := floors_run h'
  refine ⟨fun f hf => ⟨hfloors.1 f hf, fun n hnew => ⟨?_, ?_⟩⟩,
    fun stamp hstamp => ⟨hfloors.2 stamp hstamp, ?_⟩⟩
  · intro e he
    exact stored_run h hf hnew h' he
  · intro pass visit bytes t hpass hpoint hname
    exact used_run h hf hnew h' hpass hpoint hname
  · intro n hnew e he
    exact stamped_run hstamp hnew h' he

namespace Sample

/-- A report is taken up and found unchanged. -/
def retained (now : Instant) : List (Label Nat Nat Nat) :=
  [.visit false now (some 0), .readReport (some (.approval, 7)), .inspect, .retain]

/-- A pass, begun at this time, that finds `fresh` and keeps its reports for another one. -/
def keptPass (begun : Instant) (retries : Nat) (fresh : List Nat) : List (Label Nat Nat Nat) :=
  [.begin true, .scanned (some [fresh])] ++
    (List.range retries).flatMap (fun k => retained (begun + k) ++ [.applied .retry])

/-- The book fills up with the names below 64, and one more sets the floor. -/
def overflow : List (Label Nat Nat Nat) :=
  keptPass 100 32 (List.range 32) ++ [.finish] ++
    keptPass 200 32 (List.range' 32 16) ++ [.finish] ++
    keptPass 300 32 (List.range' 48 16) ++ [.finish] ++
    keptPass 400 16 [64] ++ retained 416 ++ [.finish]

/-- The next retry is accepted, and its pass is dropped before the unlink has run; it runs
when another pass has the same report in its hands. -/
def detached : List (Label Nat Nat Nat) :=
  overflow ++ [.begin true, .scanned none] ++ retained 500 ++ [.applied .accepted, .cancel] ++
    [.begin true, .cancel, .begin true, .cancel, .begin true, .cancel] ++
    [.begin true, .scanned none] ++ retained 600 ++ [.unlinkRan 0 true]

end Sample

/-- Two reports that are kept for another pass. -/
theorem kept_pass_bounded :
    ∃ r : Relay Nat Nat Nat,
      (Sample.keptPass 100 2 [0, 1]).foldlM (Relay.step fun _ => true) start = some r ∧
        r.book.keys = [0, 1] ∧ r.book.retryOrder.Perm [0, 1] := by
  have hrun : (((Sample.keptPass 100 2 [0, 1]).foldlM (Relay.step fun _ => true)
      (start : Relay Nat Nat Nat)).map (fun r => r.book.keys)) = some [0, 1] := by
    decide
  obtain ⟨r, hfold, hkeys⟩ := Option.map_eq_some_iff.mp hrun
  have hbounded := (receipts_bounded_never_renewed (fun _ => true) (Run.of_foldlM hfold)).1
  exact ⟨r, hfold, hkeys, hkeys ▸ hbounded.2.2⟩

/-- A retry puts the receipt that was unlinked back with the time it had, not with the floor
that was set in between. -/
theorem detached_unlink_keeps_time :
    ¬ ∀ (as bs : List (Label Nat Nat Nat)) (r r' : Relay Nat Nat Nat) (n : Nat) (f : Instant)
      (e : PendingReceipt Nat Nat), Run (Steps fun _ => true) start as r →
      r.book.overflowFloor = some f → n ∉ r.book.keys →
      Run (Steps fun _ => true) r bs r' → r'.book.pending.get n = some e →
      e.firstReceipt = f := by
  intro h
  have hreplay : ((Sample.detached.foldlM (Relay.step fun _ => true)
      (start : Relay Nat Nat Nat)).map (fun r =>
        (r.book.overflowFloor, r.book.contains 32,
          ((r.step (fun _ => true) (.applied .retry)).bind
            (fun r' => r'.book.pending.get 32)).map (fun e => e.firstReceipt)))) =
      some (some 416, false, some 216) := by
    decide +kernel
  obtain ⟨r, hfold, hafter⟩ := Option.map_eq_some_iff.mp hreplay
  obtain ⟨hfloor, hafter⟩ := Prod.mk.inj hafter
  obtain ⟨hnew, hafter⟩ := Prod.mk.inj hafter
  obtain ⟨e, he, htime⟩ := Option.map_eq_some_iff.mp hafter
  obtain ⟨r', hstep, he⟩ := Option.bind_eq_some_iff.mp he
  have hgone : (32 : Nat) ∉ r.book.keys := by
    intro hmem
    rw [contains_iff.mpr hmem] at hnew
    cases hnew
  have hfirst := h _ [.applied .retry] r r' 32 416 e (Run.of_foldlM hfold) hfloor hgone
    (.next .start hstep) he
  rw [htime] at hfirst
  cases hfirst

end Orkworksd.HookReportRelay
