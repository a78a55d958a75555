import Orkworksd.Lib.Run
import Orkworksd.Workspace.SwitchCoordinator

/- Workspace switching does not overlap runtimes or publish stale readiness, as long as
   no operation goes on as if its generation were current when it is not.

   What is claimed is stated about the log alone (`Sound`): which runtimes are live,
   which one is current, and what may be published when. `Ledger` joins it to the
   coordinator's variables, and `Phase` says what holds at each await. After some awaits
   the source does not look at the generation again (`Timely` lists them), and there the
   property fails (`marked_close_publishes_stale`).

   Main result: `switching_sound_when_timely`. -/
namespace Orkworksd.SwitchCoordinator
open SwitchCoordinator.Coordinator List

variable {W D : Type}

/-! ## What the log says -/

section log
variable (initial : Option String)

/-- The generation of the runtime started last; a workspace open from the start counts as
started in generation 0. -/
def lastStarted : List (Entry W D) → Option Nat
  | [] => initial.map (fun _ => 0)
  | entry :: older =>
    match entry.action with
    | .startRuntime _ g => some g
    | _ => lastStarted older

/-- The runtime that is ready, and its workspace: from its `ready` event until it has been
closed or cleaned up. A cleanup is of the runtime started last. -/
def current : List (Entry W D) → Option (Nat × String)
  | [] => initial.map (fun path => (0, path))
  | entry :: older =>
    match entry.action with
    | .publish (.ready g path _ _ _) => some (g, path)
    | .runtimeClosed => none
    | .runtimeCleaned =>
      (current older).filter (fun runtime => some runtime.1 ≠ lastStarted initial older)
    | _ => current older

/-- The runtimes started and neither closed nor cleaned up. -/
def live : List (Entry W D) → List Nat
  | [] => (initial.map (fun _ => 0)).toList
  | entry :: older =>
    match entry.action with
    | .startRuntime _ g => g :: live older
    | .runtimeClosed =>
      (live older).filter (fun g => (current initial older).map Prod.fst ≠ some g)
    | .runtimeCleaned => (live older).filter (fun g => lastStarted initial older ≠ some g)
    | _ => live older

/-- What an action may be, after the log so far. -/
structure Allowed (older : List (Entry W D)) (entry : Entry W D) : Prop where
  start : ∀ path g, entry.action = .startRuntime path g →
    live initial older = [] ∧ entry.attemptedRuntimeCleanupFailure = none
  ready : ∀ g path workspace port diagnostic,
    entry.action = .publish (.ready g path workspace port diagnostic) → g = entry.generation ∧
      (∃ e ∈ older, e.action = .startRuntime path g) ∧ ∃ e ∈ older, e.action = .runtimeStarted g
  monotone : ∀ event, entry.action = .publish event → ∀ e ∈ older, ∀ earlier,
    e.action = .publish earlier → earlier.generation ≤ event.generation
  noPath : ∀ event, entry.action = .publish event →
    event.state = .picker ∨ event.state = .opening → entry.currentWorkspacePath = none

/-- Every action of the log was allowed when it was taken. -/
def Sound : List (Entry W D) → Prop
  | [] => True
  | entry :: older => Sound older ∧ Allowed initial older entry

end log

/-- The log is sound and agrees with the coordinator's variables. -/
structure Ledger (initial : Option String) (c : Coordinator W D) : Prop where
  sound : Sound initial c.log
  bounded : ∀ e ∈ c.log, ∀ event, e.action = .publish event → event.generation ≤ c.generation
  path : c.currentWorkspacePath = (current initial c.log).map Prod.snd
  nonempty : c.currentWorkspacePath ≠ some ""
  latest : ∀ g ∈ live initial c.log, lastStarted initial c.log = some g
  owner : ∀ runtime, current initial c.log = some runtime →
    lastStarted initial c.log = some runtime.1

/-- The actions that neither publish nor touch a runtime. -/
def Action.Quiet : Action W D → Prop
  | .setWorkspacePath _ => True
  | .onCloseAdmission => True
  | .runtimeStarted _ => True
  | .finished _ => True
  | _ => False

section ledger
variable {initial : Option String} {c c' : Coordinator W D}

theorem Ledger.frame (h : Ledger initial c) (hlog : c'.log = c.log)
    (hpath : c'.currentWorkspacePath = c.currentWorkspacePath)
    (hgeneration : c.generation ≤ c'.generation) : Ledger initial c' := by
  refine ⟨hlog ▸ h.sound, ?_, ?_, hpath ▸ h.nonempty, hlog ▸ h.latest, hlog ▸ h.owner⟩
  · intro e he event hevent
    exact Nat.le_trans (h.bounded e (hlog ▸ he) event hevent) hgeneration
  · rw [hpath, hlog]
    exact h.path

variable {action : Action W D}

theorem quiet_log (initial : Option String) (hquiet : action.Quiet) (g : Nat) (path : Option String)
    (failure : Option Failure) (older : List (Entry W D)) :
    lastStarted initial (⟨action, g, path, failure⟩ :: older) = lastStarted initial older ∧
    current initial (⟨action, g, path, failure⟩ :: older) = current initial older ∧
    live initial (⟨action, g, path, failure⟩ :: older) = live initial older := by
  cases action with
  | setWorkspacePath => exact ⟨rfl, rfl, rfl⟩
  | onCloseAdmission => exact ⟨rfl, rfl, rfl⟩
  | runtimeStarted => exact ⟨rfl, rfl, rfl⟩
  | finished => exact ⟨rfl, rfl, rfl⟩
  | publish => exact hquiet.elim
  | startRuntime => exact hquiet.elim
  | runtimeClosed => exact hquiet.elim
  | runtimeCleaned => exact hquiet.elim

section
variable (h : Ledger initial c)
include h

theorem Ledger.emit_quiet (action : Action W D) (hquiet : action.Quiet) :
    Ledger initial (c.emit action) := by
  obtain ⟨hstarted, hcurrent, hlive⟩ := quiet_log initial hquiet c.generation
    c.currentWorkspacePath c.attemptedRuntimeCleanupFailure c.log
  have hnot : ∀ event, action ≠ .publish event := by
    intro event heq
    rw [heq] at hquiet
    exact hquiet
  refine ⟨⟨h.sound, ?_, ?_, ?_, ?_⟩, ?_, ?_, h.nonempty, ?_, ?_⟩
  · intro path g heq
    have heq : action = .startRuntime path g := heq
    rw [heq] at hquiet
    exact hquiet.elim
  · intro g path workspace port diagnostic heq
    exact absurd heq (hnot _)
  · intro event heq
    exact absurd heq (hnot event)
  · intro event heq
    exact absurd heq (hnot event)
  · intro e he event heq
    rcases mem_cons.mp he with rfl | he
    · exact absurd heq (hnot event)
    · exact h.bounded e he event heq
  · exact h.path.trans (congrArg (Option.map Prod.snd) hcurrent.symm)
  · intro g hg
    exact hstarted.trans (h.latest g (hlive ▸ hg))
  · intro runtime hruntime
    exact hstarted.trans (h.owner runtime (hcurrent ▸ hruntime))

theorem Ledger.publish {event : Event W D}
    (hgeneration : event.generation = c.generation) (hready : event.state ≠ .ready)
    (hpath : event.state = .picker ∨ event.state = .opening → c.currentWorkspacePath = none) :
    Ledger initial (c.publish event) := by
  have hlog : ∀ older : List (Entry W D), ∀ g path failure,
      lastStarted initial (⟨.publish event, g, path, failure⟩ :: older)
        = lastStarted initial older ∧
      current initial (⟨.publish event, g, path, failure⟩ :: older) = current initial older ∧
      live initial (⟨.publish event, g, path, failure⟩ :: older) = live initial older := by
    intro older g path failure
    cases event with
    | ready => exact absurd rfl hready
    | picker => exact ⟨rfl, rfl, rfl⟩
    | opening => exact ⟨rfl, rfl, rfl⟩
    | closing => exact ⟨rfl, rfl, rfl⟩
    | unresolved => exact ⟨rfl, rfl, rfl⟩
  obtain ⟨hstarted, hcurrent, hlive⟩ := hlog c.log c.generation c.currentWorkspacePath
    c.attemptedRuntimeCleanupFailure
  refine ⟨⟨h.sound, ?_, ?_, ?_, ?_⟩, ?_, ?_, h.nonempty, ?_, ?_⟩
  · intro path g heq
    cases heq
  · intro g path workspace port diagnostic heq
    cases heq
    exact absurd rfl hready
  · intro published heq e he earlier hearlier
    cases heq
    rw [hgeneration]
    exact h.bounded e he earlier hearlier
  · intro published heq hstate
    cases heq
    exact hpath hstate
  · intro e he published heq
    rcases mem_cons.mp he with rfl | he
    · cases heq
      exact Nat.le_of_eq hgeneration
    · exact h.bounded e he published heq
  · exact h.path.trans (congrArg (Option.map Prod.snd) hcurrent.symm)
  · intro g hg
    exact hstarted.trans (h.latest g (hlive ▸ hg))
  · intro runtime hruntime
    exact hstarted.trans (h.owner runtime (hcurrent ▸ hruntime))

variable {g : Nat}

theorem Ledger.publish_unresolved (hg : g = c.generation) (failure : Failure) :
    Ledger initial (c.publish (.unresolved g failure)) := by
  refine h.publish hg (fun heq => nomatch heq) ?_
  intro hstate
  rcases hstate with hstate | hstate
  · cases hstate
  · cases hstate

theorem Ledger.publish_closing (hg : g = c.generation) (path : String) :
    Ledger initial (c.publish (.closing g path)) := by
  refine h.publish hg (fun heq => nomatch heq) ?_
  intro hstate
  rcases hstate with hstate | hstate
  · cases hstate
  · cases hstate

theorem Ledger.publish_picker (hg : g = c.generation)
    (hpath : c.currentWorkspacePath = none) (failure : Option Failure) :
    Ledger initial (c.publish (.picker g failure)) :=
  h.publish hg (fun heq => nomatch heq) (fun _ => hpath)

theorem Ledger.publish_opening (hg : g = c.generation)
    (hpath : c.currentWorkspacePath = none) (path : String) :
    Ledger initial (c.publish (.opening g path)) :=
  h.publish hg (fun heq => nomatch heq) (fun _ => hpath)

end

theorem allowed_of_silent {older : List (Entry W D)} {entry : Entry W D}
    (hstart : ∀ path g, entry.action ≠ .startRuntime path g)
    (hpublish : ∀ event, entry.action ≠ .publish event) : Allowed initial older entry := by
  refine ⟨?_, ?_, ?_, ?_⟩
  · intro path g heq
    exact absurd heq (hstart path g)
  · intro g path workspace port diagnostic heq
    exact absurd heq (hpublish _)
  · intro event heq
    exact absurd heq (hpublish event)
  · intro event heq
    exact absurd heq (hpublish event)

theorem Ledger.bounded_silent (h : Ledger initial c) (hpublish : ∀ event, action ≠ .publish event) :
    ∀ e ∈ (c.emit action).log, ∀ event,
      e.action = .publish event → event.generation ≤ c.generation := by
  intro e he event heq
  rcases mem_cons.mp he with rfl | he
  · exact absurd heq (hpublish event)
  · exact h.bounded e he event heq

theorem Ledger.start (h : Ledger initial c) (path : String) (g : Nat)
    (hlive : live initial c.log = []) (hfailure : c.attemptedRuntimeCleanupFailure = none)
    (hpath : c.currentWorkspacePath = none) : Ledger initial (c.emit (.startRuntime path g)) := by
  have hnone : current initial c.log = none := by
    have hmap := h.path
    rw [hpath] at hmap
    exact Option.map_eq_none_iff.mp hmap.symm
  refine ⟨⟨h.sound, ?_, ?_, ?_, ?_⟩, ?_, h.path, h.nonempty, ?_, ?_⟩
  · intro path' g' heq
    exact ⟨hlive, hfailure⟩
  · intro g' path' workspace port diagnostic heq
    cases heq
  · intro event heq
    cases heq
  · intro event heq
    cases heq
  · exact h.bounded_silent (fun event heq => nomatch heq)
  · intro g' hg'
    have hmem : g' ∈ g :: live initial c.log := hg'
    rw [hlive] at hmem
    rw [mem_singleton.mp hmem]
    rfl
  · intro runtime hruntime
    have hruntime : current initial c.log = some runtime := hruntime
    rw [hnone] at hruntime
    cases hruntime

theorem Ledger.closed (h : Ledger initial c) (hpath : c.currentWorkspacePath ≠ none) :
    Ledger initial { c.emit .runtimeClosed with currentWorkspacePath := none } ∧
      live initial (c.emit .runtimeClosed).log = [] := by
  have hlive : live initial (c.emit .runtimeClosed).log = [] := by
    show (live initial c.log).filter (fun g => (current initial c.log).map Prod.fst ≠ some g) = []
    rw [filter_eq_nil_iff]
    intro g hg
    cases hcurrent : current initial c.log with
    | none =>
      rw [h.path, hcurrent] at hpath
      exact absurd rfl hpath
    | some runtime =>
      have hsame := (h.owner runtime hcurrent).symm.trans (h.latest g hg)
      simpa using hsame
  refine ⟨⟨⟨h.sound, ?_⟩, ?_, rfl, ?_, ?_, ?_⟩, hlive⟩
  · exact allowed_of_silent (fun path g heq => nomatch heq) (fun event heq => nomatch heq)
  · exact h.bounded_silent (fun event heq => nomatch heq)
  · exact fun heq => nomatch heq
  · intro g hg
    have hg : g ∈ live initial (c.emit .runtimeClosed).log := hg
    rw [hlive] at hg
    cases hg
  · intro runtime hruntime
    cases hruntime

theorem Ledger.cleaned (h : Ledger initial c) (hpath : c.currentWorkspacePath = none) :
    Ledger initial (c.emit .runtimeCleaned) ∧ live initial (c.emit .runtimeCleaned).log = [] := by
  have hlive : live initial (c.emit .runtimeCleaned).log = [] := by
    show (live initial c.log).filter (fun g => lastStarted initial c.log ≠ some g) = []
    rw [filter_eq_nil_iff]
    intro g hg
    simpa using h.latest g hg
  have hnone : current initial c.log = none := by
    have hmap := h.path
    rw [hpath] at hmap
    exact Option.map_eq_none_iff.mp hmap.symm
  have hcurrent : current initial (c.emit .runtimeCleaned).log = none := by
    show (current initial c.log).filter _ = none
    rw [hnone]
    rfl
  refine ⟨⟨⟨h.sound, ?_⟩, ?_, ?_, h.nonempty, ?_, ?_⟩, hlive⟩
  · exact allowed_of_silent (fun path g heq => nomatch heq) (fun event heq => nomatch heq)
  · exact h.bounded_silent (fun event heq => nomatch heq)
  · rw [hcurrent]
    exact hpath
  · intro g hg
    rw [hlive] at hg
    cases hg
  · intro runtime hruntime
    rw [hcurrent] at hruntime
    cases hruntime

theorem Ledger.ready (h : Ledger initial c) {path : String} {g : Nat} (hg : g = c.generation)
    (hpath : path ≠ "") (hlast : lastStarted initial c.log = some g)
    (hstart : ∃ e ∈ c.log, e.action = .startRuntime path g)
    (hstarted : ∃ e ∈ c.log, e.action = .runtimeStarted g) (workspace : W) (port : Nat)
    (diagnostic : Option D) :
    Ledger initial (({ c with currentWorkspacePath := some path }.emit
      (.setWorkspacePath (some path))).publish (.ready g path workspace port diagnostic)) := by
  refine ⟨⟨⟨h.sound, ?_⟩, ?_, ?_, ?_, ?_⟩, ?_, rfl, ?_, h.latest, ?_⟩
  · exact allowed_of_silent (fun path g heq => nomatch heq) (fun event heq => nomatch heq)
  · intro path' g' heq
    cases heq
  · intro g' path' workspace' port' diagnostic' heq
    cases heq
    obtain ⟨e, he, hact⟩ := hstart
    obtain ⟨e', he', hact'⟩ := hstarted
    exact ⟨hg, ⟨e, mem_cons_of_mem _ he, hact⟩, ⟨e', mem_cons_of_mem _ he', hact'⟩⟩
  · intro event heq e he earlier hearlier
    cases heq
    rcases mem_cons.mp he with rfl | he
    · cases hearlier
    · show earlier.generation ≤ g
      rw [hg]
      exact h.bounded e he earlier hearlier
  · intro event heq hstate
    cases heq
    rcases hstate with hstate | hstate
    · cases hstate
    · cases hstate
  · intro e he event heq
    rcases mem_cons.mp he with rfl | he
    · cases heq
      exact Nat.le_of_eq hg
    · rcases mem_cons.mp he with rfl | he
      · cases heq
      · exact h.bounded e he event heq
  · intro heq
    exact hpath (Option.some.inj heq)
  · intro runtime hruntime
    cases hruntime
    exact hlast

end ledger

/-! ## The awaits -/

/-- The operation's generation is current exactly while no failure was reported. -/
def Own (c : Coordinator W D) (g : Nat) : Prop :=
  g ≤ c.generation ∧ (c.attemptedRuntimeCleanupFailure = none ↔ g = c.generation)

/-- A live runtime is the current one, or a failed cleanup is outstanding. -/
def Rest (initial : Option String) (c : Coordinator W D) : Prop :=
  live initial c.log = [] ∨ c.currentWorkspacePath ≠ none ∨
    c.attemptedRuntimeCleanupFailure ≠ none

def CloseFor.Named : CloseFor → Prop
  | .switching path => path ≠ ""
  | _ => True

/-- The attempt to open a workspace, from `startRuntime` on. -/
structure Opening (initial : Option String) (c : Coordinator W D) (path : String) (g : Nat) :
    Prop where
  noPath : c.currentWorkspacePath = none
  own : Own c g
  named : path ≠ ""
  start : ∃ e ∈ c.log, e.action = .startRuntime path g
  last : lastStarted initial c.log = some g

/-- What holds at each await. -/
def Phase (initial : Option String) (c : Coordinator W D) : Prop :=
  match c.running with
  | some (.closeCurrentRuntime caller g) =>
    c.currentWorkspacePath ≠ none ∧ Own c g ∧ caller.Named
  | some (.closeCurrent (.switching path) g none) =>
    c.currentWorkspacePath = none ∧ Own c g ∧ path ≠ "" ∧
      (c.attemptedRuntimeCleanupFailure = none → live initial c.log = [])
  | some (.startRuntime path g) => Opening initial c path g
  | some (.rememberWorkspace path g _) =>
    Opening initial c path g ∧ ∃ e ∈ c.log, e.action = .runtimeStarted g
  | some (.cleanupAttemptedRuntime g _) => c.currentWorkspacePath = none ∧ Own c g
  | _ => Rest initial c

/-- What holds of the coordinator between two steps. -/
structure Inv (initial : Option String) (c : Coordinator W D) : Prop where
  ledger : Ledger initial c
  phase : Phase initial c

section steps
variable {initial : Option String} {c : Coordinator W D}

theorem truthy_eq_none {path : Option String} (h : path ≠ some "") :
    truthy path = none ↔ path = none := by
  cases path with
  | none => simp [truthy]
  | some p =>
    have hp : p ≠ "" := fun heq => h (congrArg some heq)
    simp [truthy, hp]

theorem truthy_some {path : Option String} {p : String} (h : truthy path = some p) :
    path = some p ∧ p ≠ "" := by
  obtain ⟨heq, hne⟩ := Option.filter_eq_some_iff.mp h
  exact ⟨heq, by simpa using hne⟩

section
variable (h : Ledger initial c)
include h

theorem inv_finish (hrest : Rest initial c) (result : Result W D) :
    Inv initial (c.finish result) := by
  refine ⟨?_, hrest⟩
  exact (h.emit_quiet (.finished _) trivial).frame rfl rfl (Nat.le_refl _)

theorem Ledger.await (point : Await W) : Ledger initial (c.await point) :=
  h.frame rfl rfl (Nat.le_refl _)

variable {caller : CloseFor}

section
variable (hrest : Rest initial c)
include hrest

theorem inv_closeCurrent
    (hfailure : c.attemptedRuntimeCleanupFailure = none) (hnamed : caller.Named) :
    Inv initial (c.closeCurrent caller c.generation) := by
  have hown : Own c c.generation := ⟨Nat.le_refl _, by simp [hfailure]⟩
  unfold closeCurrent
  split
  · rename_i htruthy
    have hpath := (truthy_eq_none h.nonempty).mp htruthy
    refine ⟨h.await _, ?_⟩
    cases caller with
    | switching path =>
      refine ⟨hpath, hown, hnamed, ?_⟩
      intro _
      rcases hrest with hlive | hsome | hsome
      · exact hlive
      · exact absurd hpath hsome
      · exact absurd hfailure hsome
    | closing quitting => exact hrest
    | updating previous => exact hrest
  · rename_i path htruthy
    have hpublished := h.publish_closing rfl path
    refine ⟨(hpublished.emit_quiet .onCloseAdmission trivial).await _, ?_, hown, hnamed⟩
    show c.currentWorkspacePath ≠ none
    rw [(truthy_some htruthy).1]
    exact fun heq => nomatch heq

theorem inv_closeCurrent_next
    (hfailure : c.attemptedRuntimeCleanupFailure = none) (caller : CloseFor)
    (hnamed : caller.Named) (destination : Option String) :
    Inv initial ({ c with
      generation := c.generation + 1
      lastDestination := destination }.closeCurrent caller (c.generation + 1)) :=
  inv_closeCurrent (c := { c with
      generation := c.generation + 1
      lastDestination := destination })
    (h.frame rfl rfl (Nat.le_succ _)) hrest hfailure hnamed

theorem inv_switchWorkspaceInternal
    (validate : String → Option String) (path : String) :
    Inv initial (c.switchWorkspaceInternal validate path) := by
  unfold switchWorkspaceInternal
  split
  · exact inv_finish h hrest _
  · rename_i hfailure
    split
    · exact inv_finish h hrest _
    · rename_i validated htruthy
      exact inv_closeCurrent_next h hrest hfailure (.switching validated) (truthy_some htruthy).2 _

theorem inv_closeReturned (quitting : Bool)
    (g : Nat) (failure : Option Failure) : Inv initial (c.closeReturned quitting g failure) := by
  unfold closeReturned
  split
  · exact ⟨h.await _, hrest⟩
  · exact inv_finish h hrest _

theorem inv_closeInternal (quitting : Bool) :
    Inv initial (c.closeInternal quitting) := by
  have hnext : Ledger initial { c with generation := c.generation + 1 } :=
    h.frame rfl rfl (Nat.le_succ _)
  unfold closeInternal
  simp only
  split
  · rename_i failure hfailure
    have hpublished := hnext.publish_unresolved rfl failure
    exact inv_closeReturned hpublished hrest _ _ _
  · rename_i hfailure
    split
    · rename_i htruthy
      have hpath := (truthy_eq_none h.nonempty).mp (Option.isNone_iff_eq_none.mp htruthy)
      have hpublished := hnext.publish_picker rfl hpath none
      exact inv_closeReturned hpublished hrest _ _ _
    · exact inv_closeCurrent_next h hrest hfailure (.closing quitting) trivial c.lastDestination

theorem inv_retryDestination
    (validate : String → Option String) : Inv initial (c.retryDestination validate) := by
  unfold retryDestination
  split
  · exact inv_finish h hrest _
  · exact inv_switchWorkspaceInternal h hrest validate _

theorem inv_runUpdate :
    Inv initial c.runUpdate := by
  unfold runUpdate
  split
  · exact inv_finish h hrest _
  · rename_i hfailure
    split
    · exact ⟨h.await _, hrest⟩
    · rename_i previous _
      exact inv_closeCurrent_next h hrest hfailure (.updating previous) trivial c.lastDestination

theorem inv_start
    (validate : String → Option String) (operation : Operation) :
    Inv initial (c.start validate operation) := by
  cases operation with
  | switchWorkspace path => exact inv_switchWorkspaceInternal h hrest validate path
  | pickWorkspace => exact ⟨h.await _, hrest⟩
  | retry =>
    show Inv initial (if _ then _ else _)
    split
    · exact ⟨h.await _, hrest⟩
    · exact inv_retryDestination h hrest validate
  | runUpdate => exact inv_runUpdate h hrest
  | close => exact inv_closeInternal h hrest false
  | quit => exact inv_closeInternal h hrest true

end

/-! ### After an await -/

theorem inv_closeSucceeded (hpath : c.currentWorkspacePath ≠ none)
    (hown : Own c c.generation) (hnamed : caller.Named) :
    Inv initial (c.closeSucceeded caller c.generation) := by
  obtain ⟨hclosed, hlive⟩ := h.closed hpath
  have hset := hclosed.emit_quiet (.setWorkspacePath none) trivial
  refine ⟨(hset.publish_picker rfl rfl none).await _, ?_⟩
  cases caller with
  | switching path => exact ⟨rfl, hown, hnamed, fun _ => hlive⟩
  | closing quitting => exact .inl hlive
  | updating previous => exact .inl hlive

theorem inv_closeFailed (hpath : c.currentWorkspacePath ≠ none)
    (error : Thrown) : Inv initial (c.closeFailed caller c.generation error) := by
  refine ⟨(h.publish_unresolved rfl _).await _, ?_⟩
  cases caller with
  | switching path => exact .inr (.inl hpath)
  | closing quitting => exact .inr (.inl hpath)
  | updating previous => exact .inr (.inl hpath)

variable {path : String}

theorem inv_opening (hpath : c.currentWorkspacePath = none)
    (hown : Own c c.generation) (hnamed : path ≠ "")
    (hlive : c.attemptedRuntimeCleanupFailure = none → live initial c.log = []) :
    Inv initial (c.afterClose (.switching path) c.generation none) := by
  have hfailure := hown.2.mpr rfl
  have hopening := h.publish_opening rfl hpath path
  refine ⟨(hopening.start path c.generation (hlive hfailure) hfailure hpath).await _, ?_⟩
  exact ⟨hpath, hown, hnamed, ⟨_, mem_cons_self, rfl⟩, rfl⟩

variable {g : Nat}

theorem inv_afterClose (hrest : Rest initial c) {failure : Option Failure}
    (hother : ∀ path, caller = .switching path → failure ≠ none) :
    Inv initial (c.afterClose caller g failure) := by
  cases caller with
  | switching path =>
    cases failure with
    | none => exact absurd rfl (hother path rfl)
    | some failure => exact inv_finish h hrest _
  | closing quitting => exact inv_closeReturned h hrest _ _ _
  | updating previous =>
    cases failure with
    | none => exact ⟨h.await _, hrest⟩
    | some failure => exact inv_finish h hrest _

theorem inv_runtimeStarted (hopening : Opening initial c path g)
    (runtime : Runtime W) : Inv initial (c.runtimeStarted path g runtime) := by
  have hstarted := h.emit_quiet (.runtimeStarted g) trivial
  unfold runtimeStarted
  simp only
  split
  · exact ⟨hstarted.await _, hopening.noPath, hopening.own⟩
  · obtain ⟨e, he, hact⟩ := hopening.start
    refine ⟨hstarted.await _, ⟨hopening.noPath, hopening.own, hopening.named,
      ⟨e, mem_cons_of_mem _ he, hact⟩, hopening.last⟩, ⟨_, mem_cons_self, rfl⟩⟩

theorem inv_cleanupFailed (error : Thrown) :
    Inv initial (c.cleanupFailed c.generation error) := by
  have hmarked : Ledger initial { c with
      attemptedRuntimeCleanupFailure := some (failureFrom error .cleanupFailed) } :=
    h.frame rfl rfl (Nat.le_refl _)
  exact inv_finish (hmarked.publish_unresolved rfl _) (.inr (.inr (fun heq => nomatch heq))) _

theorem inv_cleanupSucceeded (hpath : c.currentWorkspacePath = none)
    (hown : Own c g) (reason : CleanupFor) : Inv initial (c.cleanupSucceeded g reason) := by
  obtain ⟨hcleaned, hlive⟩ := h.cleaned hpath
  unfold cleanupSucceeded
  simp only
  split
  · exact inv_finish (hcleaned.publish_unresolved rfl _) (.inl hlive) _
  · rename_i hfailure
    have hg : g = c.generation := hown.2.mp hfailure
    cases reason with
    | failed failure => exact inv_finish (hcleaned.publish_picker hg hpath _) (.inl hlive) _
    | superseded => exact inv_finish hcleaned (.inl hlive) _
    | stale failure => exact inv_finish hcleaned (.inl hlive) _

theorem inv_remembered (hopening : Opening initial c path g)
    (hstarted : ∃ e ∈ c.log, e.action = .runtimeStarted g) (runtime : Runtime W)
    (diagnostic : Option D) : Inv initial (c.remembered path g runtime diagnostic) := by
  unfold remembered
  split
  · exact ⟨h.await _, hopening.noPath, hopening.own⟩
  · rename_i hcurrent
    have hg : g = c.generation := by
      simp only [Bool.or_eq_true, decide_eq_true_eq, ne_eq, not_or, Decidable.not_not] at hcurrent
      exact hcurrent.1
    have hready := h.ready hg hopening.named hopening.last hopening.start hstarted
      runtime.workspace runtime.port diagnostic
    exact inv_finish hready (.inr (.inl (fun heq => nomatch heq))) _

theorem inv_retryFailed (error : Thrown) :
    Inv initial (c.retryFailed error) :=
  inv_cleanupFailed h error

theorem inv_retrySucceeded (hpath : c.currentWorkspacePath = none)
    (validate : String → Option String) : Inv initial (c.retrySucceeded validate) := by
  obtain ⟨hcleaned, hlive⟩ := h.cleaned hpath
  have hcleared : Ledger initial { c.emit .runtimeCleaned with
      attemptedRuntimeCleanupFailure := none } := hcleaned.frame rfl rfl (Nat.le_refl _)
  exact inv_retryDestination (hcleared.publish_picker rfl hpath none) (.inl hlive) validate

theorem inv_updateFailed (hrest : Rest initial c)
    (previous : Option String) (error : Thrown) (validate : String → Option String) :
    Inv initial (c.updateFailed previous error validate) := by
  unfold updateFailed
  split
  · exact inv_switchWorkspaceInternal (c := { c with updateError := some error })
      (h.frame rfl rfl (Nat.le_refl _)) hrest validate _
  · exact inv_finish h hrest _

theorem inv_afterCloseInternal (hrest : Rest initial c) (g : Nat)
    (failure : Option Failure) : Inv initial (c.afterCloseInternal g failure) := by
  unfold afterCloseInternal
  split
  · exact inv_finish h hrest _
  · exact ⟨h.await _, hrest⟩

theorem inv_quitFailed (hrest : Rest initial c) (error : Thrown) :
    Inv initial (c.quitFailed c.generation error) :=
  inv_finish (h.publish_unresolved rfl _) hrest _

end

theorem own_markUnresolved (h : Own c g) (failure : Failure) :
    Own (c.markUnresolved failure) g := by
  refine ⟨Nat.le_succ_of_le h.1, ?_, ?_⟩
  · intro hnone
    cases hnone
  · intro heq
    have hlt : g < c.generation + 1 := Nat.lt_succ_of_le h.1
    have heq : g = c.generation + 1 := heq
    omega

theorem inv_markUnresolved (h : Inv initial c) (failure : Failure) :
    Inv initial (c.markUnresolved failure) := by
  have hmarked : Ledger initial { c with
      generation := c.generation + 1
      attemptedRuntimeCleanupFailure := some failure } :=
    h.ledger.frame rfl rfl (Nat.le_succ _)
  refine ⟨hmarked.publish_unresolved rfl failure, ?_⟩
  have hrest : Rest initial (c.markUnresolved failure) := .inr (.inr (fun heq => nomatch heq))
  have hkept : ∀ {action : Action W D}, (∃ e ∈ c.log, e.action = action) →
      ∃ e ∈ (c.markUnresolved failure).log, e.action = action := by
    intro action hmem
    obtain ⟨e, he, hact⟩ := hmem
    exact ⟨e, mem_cons_of_mem _ he, hact⟩
  have hopening : ∀ {path : String} {g : Nat}, Opening initial c path g →
      Opening initial (c.markUnresolved failure) path g := by
    intro path g ho
    exact ⟨ho.noPath, own_markUnresolved ho.own failure, ho.named, hkept ho.start, ho.last⟩
  have hphase := h.phase
  have hrunning : (c.markUnresolved failure).running = c.running := rfl
  unfold Phase at hphase ⊢
  rw [hrunning]
  split at hphase
  · exact ⟨hphase.1, own_markUnresolved hphase.2.1 failure, hphase.2.2⟩
  · exact ⟨hphase.1, own_markUnresolved hphase.2.1 failure, hphase.2.2.1,
      fun hnone => nomatch hnone⟩
  · exact hopening hphase
  · exact ⟨hopening hphase.1, hkept hphase.2⟩
  · exact ⟨hphase.1, own_markUnresolved hphase.2 failure⟩
  · exact hrest

end steps

/-! ## Timely steps -/

/-- The step is not one of those that go on without looking at what was reported while the
operation waited. A `closeCurrentRuntime` settles, a switch goes on after `closeCurrent`, a
cleanup or `onQuit` fails: each while the operation's generation is current. The cleanup of
a `retry` succeeds: while no path is current. -/
def Timely (c : Coordinator W D) : Label W D → Prop
  | .settle outcome _ =>
    match c.running, outcome with
    | some (.closeCurrentRuntime _ g), _ => g = c.generation
    | some (.closeCurrent (.switching _) g none), _ => g = c.generation
    | some (.cleanupAttemptedRuntime g _), .rejected _ => g = c.generation
    | some .retryCleanup, .resolved => c.currentWorkspacePath = none
    | some (.onQuit g), .rejected _ => g = c.generation
    | _, _ => True
  | _ => True

section timely
variable {initial : Option String} {c : Coordinator W D}

theorem inv_resume (h : Inv initial c) {point : Await W} (hrunning : c.running = some point)
    {outcome : Outcome W D} {validate : String → Option String}
    (htimely : Timely c (.settle outcome validate)) {c' : Coordinator W D}
    (hresume : c.resume validate point outcome = some c') : Inv initial c' := by
  obtain ⟨hledger, hphase⟩ := h
  unfold Phase at hphase
  rw [hrunning] at hphase
  simp only [Timely, hrunning] at htimely
  cases point with
  | selecting =>
    cases outcome with
    | selected path =>
      cases path with
      | none => cases hresume; exact inv_finish hledger hphase _
      | some path => cases hresume; exact inv_switchWorkspaceInternal hledger hphase _ _
    | rejected error => cases hresume; exact inv_finish hledger hphase _
    | resolved => cases hresume
    | started => cases hresume
    | remembered => cases hresume
  | closeCurrentRuntime caller g =>
    have hg : g = c.generation := htimely
    subst hg
    cases outcome with
    | resolved =>
      cases hresume
      exact inv_closeSucceeded hledger hphase.1 hphase.2.1 hphase.2.2
    | rejected error => cases hresume; exact inv_closeFailed hledger hphase.1 error
    | selected => cases hresume
    | started => cases hresume
    | remembered => cases hresume
  | closeCurrent caller g failure =>
    cases outcome with
    | resolved =>
      cases hresume
      cases caller with
      | switching path =>
        cases failure with
        | none =>
          have hg : g = c.generation := htimely
          subst hg
          exact inv_opening hledger hphase.1 hphase.2.1 hphase.2.2.1 hphase.2.2.2
        | some failure => exact inv_afterClose hledger hphase (fun _ _ heq => nomatch heq)
      | closing quitting => exact inv_afterClose hledger hphase (fun _ heq => nomatch heq)
      | updating previous => exact inv_afterClose hledger hphase (fun _ heq => nomatch heq)
    | rejected => cases hresume
    | selected => cases hresume
    | started => cases hresume
    | remembered => cases hresume
  | startRuntime path g =>
    cases outcome with
    | started runtime => cases hresume; exact inv_runtimeStarted hledger hphase runtime
    | rejected error => cases hresume; exact ⟨hledger.await _, hphase.noPath, hphase.own⟩
    | resolved => cases hresume
    | selected => cases hresume
    | remembered => cases hresume
  | cleanupAttemptedRuntime g reason =>
    cases outcome with
    | resolved => cases hresume; exact inv_cleanupSucceeded hledger hphase.1 hphase.2 reason
    | rejected error =>
      have hg : g = c.generation := htimely
      subst hg
      cases hresume
      exact inv_cleanupFailed hledger error
    | selected => cases hresume
    | started => cases hresume
    | remembered => cases hresume
  | rememberWorkspace path g runtime =>
    cases outcome with
    | remembered diagnostic =>
      cases hresume
      exact inv_remembered hledger hphase.1 hphase.2 runtime diagnostic
    | rejected error => cases hresume; exact inv_remembered hledger hphase.1 hphase.2 runtime none
    | resolved => cases hresume
    | selected => cases hresume
    | started => cases hresume
  | retryCleanup =>
    cases outcome with
    | resolved => cases hresume; exact inv_retrySucceeded hledger htimely validate
    | rejected error => cases hresume; exact inv_retryFailed hledger error
    | selected => cases hresume
    | started => cases hresume
    | remembered => cases hresume
  | update previous =>
    cases outcome with
    | resolved => cases hresume; exact inv_finish hledger hphase _
    | rejected error => cases hresume; exact inv_updateFailed hledger hphase previous error validate
    | selected => cases hresume
    | started => cases hresume
    | remembered => cases hresume
  | closeInternal g failure =>
    cases outcome with
    | resolved => cases hresume; exact inv_afterCloseInternal hledger hphase g failure
    | rejected => cases hresume
    | selected => cases hresume
    | started => cases hresume
    | remembered => cases hresume
  | onQuit g =>
    cases outcome with
    | resolved => cases hresume; exact inv_finish hledger hphase _
    | rejected error =>
      have hg : g = c.generation := htimely
      subst hg
      cases hresume
      exact inv_quitFailed hledger hphase error
    | selected => cases hresume
    | started => cases hresume
    | remembered => cases hresume

theorem inv_call (h : Inv initial c) (operation : Operation) :
    Inv initial { c with queue := c.queue ++ [operation] } := by
  refine ⟨h.ledger.frame rfl rfl (Nat.le_refl _), ?_⟩
  have hphase := h.phase
  unfold Phase at hphase ⊢
  simp only
  split at hphase
  · exact hphase
  · exact hphase
  · exact ⟨hphase.noPath, hphase.own, hphase.named, hphase.start, hphase.last⟩
  · obtain ⟨hopening, hstarted⟩ := hphase
    exact ⟨⟨hopening.noPath, hopening.own, hopening.named, hopening.start, hopening.last⟩, hstarted⟩
  · exact hphase
  · exact hphase

theorem inv_step (h : Inv initial c) {label : Label W D} (htimely : Timely c label)
    {c' : Coordinator W D} (hstep : c.step label = some c') : Inv initial c' := by
  cases label with
  | call operation =>
    cases hstep
    exact inv_call h operation
  | markUnresolved failure =>
    cases hstep
    exact inv_markUnresolved h failure
  | start validate =>
    unfold Coordinator.step at hstep
    simp only at hstep
    split at hstep
    · rename_i operation queue hrunning hqueue
      cases hstep
      have hrest : Rest initial c := by
        have hphase := h.phase
        unfold Phase at hphase
        rw [hrunning] at hphase
        exact hphase
      exact inv_start (c := { c with queue := queue }) (h.ledger.frame rfl rfl (Nat.le_refl _))
        hrest validate operation
    · cases hstep
  | settle outcome validate =>
    unfold Coordinator.step at hstep
    simp only at hstep
    split at hstep
    · cases hstep
    · rename_i point hrunning
      exact inv_resume h hrunning htimely hstep

theorem inv_create (hinitial : initial ≠ some "") :
    Inv initial (create initial : Coordinator W D) := by
  refine ⟨⟨trivial, ?_, ?_, hinitial, ?_, ?_⟩, ?_⟩
  · intro e he
    cases he
  · show initial = (initial.map (fun path => (0, path))).map Prod.snd
    cases initial with
    | none => rfl
    | some path => rfl
  · intro g hg
    cases initial with
    | none => cases hg
    | some path =>
      have hzero : g = 0 := mem_singleton.mp hg
      rw [hzero]
      rfl
  · intro runtime hruntime
    cases initial with
    | none => cases hruntime
    | some path =>
      cases hruntime
      rfl
  · cases initial with
    | none => exact .inl rfl
    | some path => exact .inr (.inl (fun heq => nomatch heq))

end timely

def TimelyStep (c : Coordinator W D) (label : Label W D) (c' : Coordinator W D) : Prop :=
  Timely c label ∧ c.step label = some c'

/-- In every state that timely steps reach, from a coordinator created without a workspace
or over an open one, in any order of calls and callback outcomes: `startRuntime` was called
only while no runtime was live and no cleanup failure outstanding, `ready` was published
only for the current generation after its own runtime had started, the published
generations never decreased, no `picker` or `opening` was published while a path was
current, and the current path is that of the runtime that is ready. -/
theorem switching_sound_when_timely (initial : Option String) (hinitial : initial ≠ some "")
    (labels : List (Label W D)) (c : Coordinator W D)
    (hrun : Lib.Run TimelyStep (create initial) labels c) :
    Sound initial c.log ∧ c.currentWorkspacePath = (current initial c.log).map Prod.snd := by
  have hinv : Inv initial c :=
    hrun.invariant (Inv initial) (inv_create hinitial) (fun h hs => inv_step h hs.1 hs.2)
  exact ⟨hinv.ledger.sound, hinv.ledger.path⟩

/-! ## A timely run, and one that is not -/

/-- Every destination is accessible. -/
def accessible : String → Option String := some

/-- A workspace is opened (newest step first). -/
def openingRun : List (Label Unit Unit) :=
  [.settle (.remembered none) accessible, .settle (.started ⟨(), 4000⟩) accessible,
    .settle .resolved accessible, .start accessible, .call (.switchWorkspace "/a")]

theorem opened_workspace_sound : ∃ c : Coordinator Unit Unit,
    Lib.Run TimelyStep (create none) openingRun c ∧ c.currentWorkspacePath = some "/a" ∧
      Sound none c.log ∧ c.currentWorkspacePath = (current none c.log).map Prod.snd := by
  have hrun : ∃ c : Coordinator Unit Unit, Lib.Run TimelyStep (create none) openingRun c ∧
      c.currentWorkspacePath = some "/a" := by
    refine ⟨_, .next (.next (.next (.next (.next .start ⟨trivial, rfl⟩) ⟨trivial, rfl⟩)
      ⟨rfl, rfl⟩) ⟨trivial, rfl⟩) ⟨trivial, rfl⟩, rfl⟩
  obtain ⟨c, hrun, hpath⟩ := hrun
  exact ⟨c, hrun, hpath, switching_sound_when_timely none (by decide) openingRun c hrun⟩

/-- A second workspace is switched to, and while the first is being closed a failed cleanup
is reported; then the close succeeds (oldest step first). -/
def markedRun : List (Label Unit Unit) :=
  openingRun.reverse ++ [.call (.switchWorkspace "/b"), .start accessible,
    .markUnresolved ⟨.cleanupFailed, "The backend is unavailable."⟩,
    .settle .resolved accessible, .settle .resolved accessible]

/-- The switch goes on: it publishes a generation that is past and starts a runtime while
the reported failure is outstanding. -/
theorem marked_close_publishes_stale :
    ¬ ∀ (labels : List (Label Unit Unit)) (c : Coordinator Unit Unit),
      Lib.Run (fun c label c' => c.step label = some c') (create none) labels c →
        Sound none c.log ∧ c.currentWorkspacePath = (current none c.log).map Prod.snd := by
  intro h
  have hrun : ∃ c, markedRun.foldlM Coordinator.step (create none) = some c ∧
      ∃ older entry later, c.log = later :: entry :: older ∧
        later.action = .startRuntime "/b" 2 ∧ later.attemptedRuntimeCleanupFailure ≠ none := by
    exact ⟨_, rfl, _, _, _, rfl, rfl, fun heq => nomatch heq⟩
  obtain ⟨c, hfold, older, entry, later, hlog, hstart, hfailure⟩ := hrun
  have hsound := (h markedRun.reverse c (Lib.Run.of_foldlM hfold)).1
  rw [hlog] at hsound
  exact hfailure (hsound.2.start "/b" 2 hstart).2

end Orkworksd.SwitchCoordinator
