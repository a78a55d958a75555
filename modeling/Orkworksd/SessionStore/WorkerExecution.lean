import Orkworksd.Lib.Run
import Orkworksd.SessionStore.Worker

/- The session store's worker executes a command at most once, and never one whose caller
   was promised otherwise.

   `Cell.Ok` is what holds of a command between any two atomic actions of the four parties
   that race on its state word. -/
namespace Orkworksd.SessionStoreWorker
open Lib

/-! ## One command -/

/-- The worker has not looked at the gate of the job yet. -/
def Early (place : Place) (p : Option Point) : Prop :=
  place = .prepared ∨ place = .queued ∨ p = some .taken ∨ p = some .offering ∨ p = some .sending

/-- A command, with the worker's place in its loop where the worker has it in hand. -/
structure Cell.Ok (p : Option Point) (c : Cell) : Prop where
  hand : c.place = .taken ↔ p.isSome = true
  early : Early c.place p → c.gate = .closed
  offers : p = some .offering ∨ p = some .sending → c.gated = true
  claim : p = some .claiming ∨ p = some .claimed → c.gated = false
  claimed : p = some .claimed → c.word = .executing
  decided : ∀ d, p = some (.decided d) → c.gate = .decided d
  may : p = some .granted ∨ p = some .executing →
    c.word = .executing ∧ (c.gated = true → c.gate = .decided .run)
  begun : p = some .executing → c.pending = false
  once : c.seen.executions ≤ 1
  ran : c.seen.executions ≠ 0 → c.word = .executing ∧ c.pending = false ∧
    (c.gated = true → c.gate = .decided .run) ∧ c.place ≠ .prepared ∧ c.place ≠ .queued ∧
    (p = none ∨ p = some .settled ∨ p = some .replying)
  called : c.gate = .decided .run → c.seen.executeCalled = true
  ungated : c.gated = false → c.gate = .closed
  waitExpired : c.seen.waitExpired = true → c.word = .cancelled
  cancelled : c.seen.cancelled = true → c.word = .cancelled
  grantFailed : c.seen.grantFailed = true → c.gate = .decided .expired

variable {p : Option Point} {c c' : Cell} {now : Instant}

namespace Cell.Ok

theorem cancel (h : c.Ok p) (hword : c.word = .queued) :
    Ok p { c with word := .cancelled } := by
  have hno : ¬ c.word = .executing := by simp [hword]
  exact { h with
    claimed := fun hp => absurd (h.claimed hp) hno
    may := fun hp => absurd (h.may hp).1 hno
    ran := fun hn => absurd (h.ran hn).1 hno
    waitExpired := fun _ => rfl
    cancelled := fun _ => rfl }

theorem cancelWord (h : c.Ok p) : Ok p c.cancelWord := by
  unfold Cell.cancelWord
  split
  · rename_i hword
    exact h.cancel hword
  · exact h

theorem moveTicket (h : c.Ok p) (ticket : Ticket) : Ok p { c with ticket := ticket } := { h with }

theorem drop (h : c.Ok p) (hplace : c.place ≠ .taken) (place : Place)
    (hlate : place = .held ∨ place = .dropping ∨ place = .released) :
    Ok p { c with place := place } := by
  have hp : p = none := by
    cases hp : p with
    | none => rfl
    | some point => exact absurd (h.hand.mpr (by simp [hp])) hplace
  have hplace' : place ≠ .taken ∧ place ≠ .prepared ∧ place ≠ .queued := by
    rcases hlate with hlate | hlate | hlate <;> simp [hlate]
  subst hp
  exact { h with
    hand := by simp [hplace'.1]
    early := by simp [Early, hplace'.2.1, hplace'.2.2]
    ran := fun hn =>
      ⟨(h.ran hn).1, (h.ran hn).2.1, (h.ran hn).2.2.1, hplace'.2.1, hplace'.2.2, .inl rfl⟩ }

theorem queue (h : c.Ok p) (hplace : c.place = .prepared) (gate : Bool) :
    Ok p { c with place := .queued, gated := gate } := by
  have hgate : c.gate = .closed := h.early (.inl hplace)
  have hp : p = none := by
    cases hp : p with
    | none => rfl
    | some point =>
      have htaken := h.hand.mpr (by simp [hp])
      rw [hplace] at htaken
      cases htaken
  subst hp
  exact { h with
    hand := by simp
    early := fun _ => hgate
    offers := by simp
    claim := by simp
    may := by simp
    ran := fun hn => absurd hplace (h.ran hn).2.2.2.1
    ungated := fun _ => hgate }

theorem take (h : c.Ok none) (hplace : c.place = .queued) :
    Ok (some .taken) { c with place := .taken } := by
  have hgate : c.gate = .closed := h.early (.inr (.inl hplace))
  exact { h with
    hand := by simp
    early := fun _ => hgate
    offers := by simp
    claim := by simp
    claimed := by simp
    decided := by simp
    may := by simp
    begun := by simp
    ran := fun hn => absurd hplace (h.ran hn).2.2.2.2.1 }

/-- The one exchange that lets a command run; nobody was told before that it will not. -/
theorem claimWord (h : c.Ok p) (hword : c.word = .queued) :
    Ok p { c with word := .executing } := by
  have hno : ¬ c.word = .cancelled := by simp [hword]
  exact { h with
    claimed := fun _ => rfl
    may := fun hp => ⟨rfl, (h.may hp).2⟩
    ran := fun hn => ⟨rfl, (h.ran hn).2⟩
    waitExpired := fun hs => absurd (h.waitExpired hs) hno
    cancelled := fun hs => absurd (h.cancelled hs) hno }

/-- A request that is under way has not been decided, so nothing ran; the decision is told
once. -/
theorem moveGate (h : c.Ok p) (hopen : c.gate ≠ .closed) (hundecided : ∀ d, c.gate ≠ .decided d)
    (g : Gate) (called failed : Bool) (hcalled : g = .decided .run → called = true)
    (hfailed : failed = true → g = .decided .expired ∨ c.seen.grantFailed = true) :
    Ok p { c with
      gate := g
      seen := { c.seen with executeCalled := called, grantFailed := failed } } := by
  have hgated : c.gated ≠ false := fun hg => hopen (h.ungated hg)
  have hran : ¬ c.seen.executions ≠ 0 :=
    fun hn => hundecided _ ((h.ran hn).2.2.1 (eq_true_of_ne_false hgated))
  exact { h with
    early := fun he => absurd (h.early he) hopen
    decided := fun d hp => absurd (h.decided d hp) (hundecided d)
    may := fun hp =>
      absurd ((h.may hp).2 (eq_true_of_ne_false hgated)) (hundecided _)
    ran := fun hn => absurd hn hran
    called := hcalled
    ungated := fun hg => absurd hg hgated
    grantFailed := fun hf =>
      (hfailed hf).elim (fun hg => hg) (fun hold => absurd (h.grantFailed hold) (hundecided _)) }

end Cell.Ok

theorem act_ok {a : Act} (h : c.Ok p) (hact : c.act now a = some c') : c'.Ok p := by
  cases a with
  | dropPrepared =>
    simp only [Cell.act] at hact
    split at hact <;> cases hact
    rename_i hplace
    exact (h.drop (by simp [hplace]) .dropping (.inr (.inl rfl))).moveTicket .dropping
  | expire =>
    simp only [Cell.act] at hact
    split at hact
    · split at hact <;> cases hact
      · rename_i hword
        exact { (h.cancel hword).moveTicket .dropping with
          waitExpired := fun _ => rfl }
      · exact h.moveTicket .late
    · cases hact
  | receive =>
    simp only [Cell.act] at hact
    split at hact
    · split at hact <;> cases hact
      · rename_i hplace
        exact (h.drop (by simp [hplace]) .held (.inl rfl)).moveTicket .dropping
      · exact h.moveTicket .dropping
      · exact h.moveTicket .dropping
    · cases hact
  | dropTicket =>
    simp only [Cell.act] at hact
    split at hact <;> cases hact
    exact h.moveTicket .dropping
  | cancelTicket =>
    simp only [Cell.act] at hact
    split at hact <;> cases hact
    exact h.cancelWord.moveTicket .retiring
  | closeReceiver =>
    simp only [Cell.act] at hact
    split at hact <;> cases hact
    by_cases hplace : c.place = .delivered
    · simp only [hplace, if_true]
      exact (h.drop (by simp [hplace]) .dropping (.inr (.inl rfl))).moveTicket .closed
    · simp only [hplace, if_false]
      exact h.moveTicket .closed
  | cancel =>
    simp only [Cell.act] at hact
    split at hact <;> cases hact
    · rename_i hword
      exact { h.cancel hword with cancelled := fun _ => rfl }
    · exact h
  | dropCancellation =>
    cases hact
    exact h.cancelWord
  | dropReply =>
    simp only [Cell.act] at hact
    split at hact <;> cases hact
    rename_i hplace
    exact h.drop (by simp [hplace]) .dropping (.inr (.inl rfl))
  | grant =>
    simp only [Cell.act] at hact
    split at hact
    · rename_i hgate
      split at hact <;> cases hact
      · rename_i hword
        exact (h.claimWord hword).moveGate (by simp [hgate]) (by simp [hgate]) .claimed _ _
          (fun hg => nomatch hg) .inr
      · exact h.moveGate (by simp [hgate]) (by simp [hgate]) (.decided .expired) _ true
          (fun hg => nomatch hg) (fun _ => .inl rfl)
    · cases hact
  | checkGrant =>
    simp only [Cell.act] at hact
    split at hact
    · rename_i hgate
      split at hact <;> cases hact
      · exact h.moveGate (by simp [hgate]) (by simp [hgate]) (.decided .expired) _ true
          (fun hg => nomatch hg) (fun _ => .inl rfl)
      · exact h.moveGate (by simp [hgate]) (by simp [hgate]) .granted _ _
          (fun hg => nomatch hg) .inr
    · cases hact
  | dropRequest =>
    simp only [Cell.act] at hact
    split at hact <;> cases hact
    rename_i hgate
    exact h.moveGate (by simp [hgate]) (by simp [hgate]) (.decided .reject) _ _
      (fun hg => nomatch hg) .inr
  | execute =>
    simp only [Cell.act] at hact
    split at hact <;> cases hact
    rename_i hgate
    exact h.moveGate (by simp [hgate]) (by simp [hgate]) (.decided .run) true _
      (fun _ => rfl) .inr
  | dropGrant =>
    simp only [Cell.act] at hact
    split at hact <;> cases hact
    rename_i hgate
    exact h.moveGate (by simp [hgate]) (by simp [hgate]) (.decided .reject) _ _
      (fun hg => nomatch hg) .inr

namespace Cell.Ok

variable {point : Point}

theorem placeTaken (h : c.Ok (some point)) : c.place = .taken := h.hand.mpr rfl

theorem goto (h : c.Ok (some point)) (next : Point)
    (early : Early c.place (some next) → c.gate = .closed)
    (offers : next = .offering ∨ next = .sending → c.gated = true)
    (claim : next = .claiming ∨ next = .claimed → c.gated = false)
    (claimed : next = .claimed → c.word = .executing)
    (decided : ∀ d, next = .decided d → c.gate = .decided d)
    (may : next = .granted ∨ next = .executing →
      c.word = .executing ∧ (c.gated = true → c.gate = .decided .run))
    (begun : next = .executing → c.pending = false)
    (ran : next = .settled ∨ next = .replying ∨ c.seen.executions = 0) : c.Ok (some next) :=
  { h with
    hand := ⟨fun _ => rfl, fun _ => h.placeTaken⟩
    early := early
    offers := fun hp => offers (hp.imp Option.some.inj Option.some.inj)
    claim := fun hp => claim (hp.imp Option.some.inj Option.some.inj)
    claimed := fun hp => claimed (Option.some.inj hp)
    decided := fun d hp => decided d (Option.some.inj hp)
    may := fun hp => may (hp.imp Option.some.inj Option.some.inj)
    begun := fun hp => begun (Option.some.inj hp)
    ran := fun hn => by
      obtain ⟨hword, hpending, hrun, hprepared, hqueued, -⟩ := h.ran hn
      refine ⟨hword, hpending, hrun, hprepared, hqueued, .inr ?_⟩
      rcases ran with heq | heq | heq
      · exact .inl (congrArg some heq)
      · exact .inr (congrArg some heq)
      · exact absurd heq hn }

theorem settle (h : c.Ok (some point)) : c.Ok (some .settled) :=
  h.goto .settled (by simp [Early, h.placeTaken]) (by simp) (by simp) (by simp) (by simp)
    (by simp) (by simp) (.inl rfl)

theorem openGate (h : c.Ok p) (hclosed : c.gate = .closed) (hgated : c.gated = true)
    (hrun : c.seen.executions = 0) (hlate : ¬ Early c.place p) (hpoint : ∀ d, p ≠ some (.decided d))
    (hmay : ¬ (p = some .granted ∨ p = some .executing)) (g : Gate) (hg : g ≠ .decided .run) :
    Ok p { c with gate := g } :=
  { h with
    early := fun he => absurd he hlate
    decided := fun d hp => absurd hp (hpoint d)
    may := fun hp => absurd hp hmay
    ran := fun hn => absurd hrun hn
    called := fun heq => absurd heq hg
    ungated := fun hno => by
      rw [show c.gated = false from hno] at hgated
      cases hgated
    grantFailed := fun hf => by
      have hold := h.grantFailed hf
      rw [hclosed] at hold
      cases hold }

theorem notRun (h : c.Ok (some point)) (hset : point ≠ .settled) (hrep : point ≠ .replying) :
    c.seen.executions = 0 := by
  apply Classical.byContradiction
  intro hn
  rcases (h.ran hn).2.2.2.2.2 with hp | hp | hp
  · cases hp
  · exact hset (Option.some.inj hp)
  · exact hrep (Option.some.inj hp)

theorem begin {next : Point} (h : c.Ok (some point))
    (hnext : point = .granted ∧ next = .executing ∨ point = .settled ∧ next = .replying) :
    Ok (some next) { c with pending := false } := by
  have hunpended : Ok (some point) { c with pending := false } :=
    { h with
      begun := fun _ => rfl
      ran := fun hn => ⟨(h.ran hn).1, rfl, (h.ran hn).2.2⟩ }
  rcases hnext with ⟨hpoint, hnext⟩ | ⟨hpoint, hnext⟩
  · subst hpoint hnext
    exact hunpended.goto .executing (by simp [Early, h.placeTaken]) (by simp) (by simp) (by simp)
      (by simp) (fun _ => h.may (.inl rfl)) (fun _ => rfl)
      (.inr (.inr (h.notRun (by simp) (by simp))))
  · subst hpoint hnext
    exact hunpended.goto .replying (by simp [Early, h.placeTaken]) (by simp) (by simp) (by simp)
      (by simp) (by simp) (by simp) (.inr (.inl rfl))

theorem leave (h : c.Ok (some point)) (place : Place)
    (hlate : place = .dropping ∨ place = .delivered) : Ok none { c with place := place } := by
  have hplace' : place ≠ .taken ∧ place ≠ .prepared ∧ place ≠ .queued := by
    rcases hlate with hlate | hlate <;> simp [hlate]
  exact { h with
    hand := by simp [hplace'.1]
    early := by simp [Early, hplace'.2.1, hplace'.2.2]
    offers := by simp
    claim := by simp
    claimed := by simp
    decided := by simp
    may := by simp
    begun := by simp
    ran := fun hn =>
      ⟨(h.ran hn).1, (h.ran hn).2.1, (h.ran hn).2.2.1, hplace'.2.1, hplace'.2.2, .inl rfl⟩ }

end Cell.Ok

theorem work_ok {w : Work} {point : Point} {next : Option Point} (h : c.Ok (some point))
    (hwork : c.work now point w = some (next, c')) : c'.Ok next := by
  cases w with
  | look =>
    simp only [Cell.work] at hwork
    split at hwork
    · rename_i hpoint
      have hrun := h.notRun (by simp [hpoint]) (by simp [hpoint])
      have hgate : c.gate = .closed := h.early (by simp [Early, hpoint])
      split at hwork
      · cases hwork
        exact h.leave .dropping (.inl rfl)
      · split at hwork <;> cases hwork
        · rename_i hgated
          exact h.goto .offering (fun _ => hgate) (fun _ => hgated) (by simp) (by simp) (by simp)
            (by simp) (by simp) (.inr (.inr hrun))
        · rename_i hgated
          exact h.goto .claiming (fun _ => hgate) (by simp) (fun _ => by simpa using hgated)
            (by simp) (by simp) (by simp) (by simp) (.inr (.inr hrun))
    · cases hwork
  | age =>
    simp only [Cell.work] at hwork
    split at hwork
    · rename_i hpoint
      have hrun := h.notRun (by simp [hpoint]) (by simp [hpoint])
      have hgate : c.gate = .closed := h.early (by simp [Early, hpoint])
      split at hwork <;> cases hwork
      · exact h.settle
      · exact h.goto .sending (fun _ => hgate) (fun _ => h.offers (.inl (by simp [hpoint])))
          (by simp) (by simp) (by simp) (by simp) (by simp) (.inr (.inr hrun))
    · cases hwork
  | offer heard =>
    simp only [Cell.work] at hwork
    split at hwork
    · rename_i hpoint
      have hrun := h.notRun (by simp [hpoint]) (by simp [hpoint])
      have hgate : c.gate = .closed := h.early (by simp [Early, hpoint])
      have hgated : c.gated = true := h.offers (.inr (by simp [hpoint]))
      have hset := h.settle
      split at hwork <;> cases hwork
      · have hdeciding : c.Ok (some .deciding) :=
          h.goto .deciding (by simp [Early, h.placeTaken]) (by simp) (by simp) (by simp) (by simp)
            (by simp) (by simp) (.inr (.inr hrun))
        exact hdeciding.openGate hgate hgated hrun (by simp [Early, h.placeTaken]) (by simp)
          (by simp) .requested (by simp)
      · exact hset.openGate hgate hgated hrun (by simp [Early, h.placeTaken]) (by simp)
          (by simp) (.decided .reject) (by simp)
    · cases hwork
  | decide =>
    simp only [Cell.work] at hwork
    split at hwork
    · rename_i hpoint
      split at hwork <;> cases hwork
      rename_i d hgate
      have hrun : c.seen.executions = 0 :=
        h.notRun (by rcases hpoint with hp | hp <;> simp [hp])
          (by rcases hpoint with hp | hp <;> simp [hp])
      refine h.goto (.decided d) (by simp [Early, h.placeTaken]) (by simp) (by simp) (by simp) ?_
        (by simp) (by simp) (.inr (.inr hrun))
      intro d' heq
      cases heq
      exact hgate
    · cases hwork
  | timeout =>
    simp only [Cell.work] at hwork
    split at hwork <;> cases hwork
    rename_i hpoint
    have hrun := h.notRun (by simp [hpoint.1]) (by simp [hpoint.1])
    exact h.goto .timedOut (by simp [Early, h.placeTaken]) (by simp) (by simp) (by simp) (by simp)
      (by simp) (by simp) (.inr (.inr hrun))
  | load =>
    simp only [Cell.work] at hwork
    split at hwork
    · rename_i hpoint
      have hrun := h.notRun (by simp [hpoint]) (by simp [hpoint])
      split at hwork <;> cases hwork
      · exact h.goto .blocked (by simp [Early, h.placeTaken]) (by simp) (by simp) (by simp)
          (by simp) (by simp) (by simp) (.inr (.inr hrun))
      · exact h.settle
    · cases hwork
  | settle =>
    simp only [Cell.work] at hwork
    split at hwork
    · rename_i d
      split at hwork <;> cases hwork
      · rename_i hrun
        obtain ⟨rfl, hword⟩ := hrun
        exact h.goto .granted (by simp [Early, h.placeTaken]) (by simp) (by simp) (by simp)
          (by simp) (fun _ => ⟨hword, fun _ => h.decided .run rfl⟩) (by simp)
          (.inr (.inr (h.notRun (by simp) (by simp))))
      · exact h.settle
    · cases hwork
  | claim =>
    simp only [Cell.work] at hwork
    split at hwork
    · rename_i hpoint
      have hrun := h.notRun (by simp [hpoint]) (by simp [hpoint])
      split at hwork <;> cases hwork
      · rename_i hword
        have hgated : c.gated = false := h.claim (.inl (by simp [hpoint]))
        exact (h.claimWord hword).goto .claimed (by simp [Early, h.placeTaken]) (by simp)
          (fun _ => hgated) (fun _ => rfl) (by simp) (by simp) (by simp) (.inr (.inr hrun))
      · exact h.settle
    · cases hwork
  | checkAge =>
    simp only [Cell.work] at hwork
    split at hwork
    · rename_i hpoint
      have hrun := h.notRun (by simp [hpoint]) (by simp [hpoint])
      split at hwork <;> cases hwork
      · exact h.settle
      · have hgated : c.gated = false := h.claim (.inr (by simp [hpoint]))
        refine h.goto .granted (by simp [Early, h.placeTaken]) (by simp) (by simp) (by simp)
          (by simp) (fun _ => ⟨h.claimed (by simp [hpoint]), fun hg => ?_⟩) (by simp) (.inr (.inr hrun))
        rw [hgated] at hg
        cases hg
    · cases hwork
  | run =>
    simp only [Cell.work] at hwork
    split at hwork <;> cases hwork
    rename_i hpoint
    have hrun := h.notRun (by simp [hpoint]) (by simp [hpoint])
    have hmay := h.may (.inr (by simp [hpoint]))
    have hbegun := h.begun (by simp [hpoint])
    have hset := h.settle
    -- the command runs for the first time, and its word is claimed for good
    exact { hset with
      once := by
        show c.seen.executions + 1 ≤ 1
        omega
      ran := fun _ =>
        ⟨hmay.1, hbegun, hmay.2, by simp [h.placeTaken], by simp [h.placeTaken], .inr (.inl rfl)⟩ }
  | reply =>
    simp only [Cell.work] at hwork
    split at hwork <;> cases hwork
    split
    · exact h.leave .dropping (.inl rfl)
    · exact h.leave .delivered (.inr rfl)

end Orkworksd.SessionStoreWorker
