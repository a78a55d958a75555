import Mathlib.Logic.Basic
import Mathlib.Data.List.Basic

/- Runs of a labelled transition system and the two rules every safety proof of
   this development uses. `Run step init as s` says that the labels `as`, newest
   first, lead from `init` to `s`. `Run.invariant` carries a state predicate along
   a run; `Run.history` carries a predicate that also reads the labels taken so
   far. `Occurred step init stop P as` says that some step of the run satisfied
   `P` and that no label after it satisfies `stop`: it is how a property about
   the past ("was acknowledged since the last reset") is stated. -/
namespace Orkworksd.Lib

variable {σ α : Type}

/-- The labels `as`, newest first, lead from `init` to the state. -/
inductive Run (step : σ → α → σ → Prop) (init : σ) : List α → σ → Prop where
  | start : Run step init [] init
  | next {as : List α} {s t : σ} {a : α} :
      Run step init as s → step s a t → Run step init (a :: as) t

namespace Run

variable {step : σ → α → σ → Prop} {init : σ}

variable {s : σ} {as : List α}

/-- A predicate that holds at the start and is kept by every step holds after
every run. -/
theorem invariant (Inv : σ → Prop) (h0 : Inv init) (hstep : ∀ {s a t}, Inv s → step s a t → Inv t)
    (h : Run step init as s) : Inv s := by
  induction h with
  | start => exact h0
  | next _ hs ih => exact hstep ih hs

/-- The same for a predicate over the labels taken so far and the state. -/
theorem history (Inv : List α → σ → Prop) (h0 : Inv [] init)
    (hstep : ∀ {as s a t}, Run step init as s → Inv as s → step s a t → Inv (a :: as) t)
    (h : Run step init as s) : Inv as s := by
  induction h with
  | start => exact h0
  | next hr hs ih => exact hstep hr ih hs

theorem mono {step' : σ → α → σ → Prop} (hsub : ∀ {s a t}, step s a t → step' s a t)
    (h : Run step init as s) : Run step' init as s := by
  induction h with
  | start => exact .start
  | next _ hs ih => exact .next ih (hsub hs)

/-- Runs compose: the later labels go in front. -/
theorem append {bs : List α} {t : σ} (h : Run step init as s) (k : Run step s bs t) :
    Run step init (bs ++ as) t := by
  induction k with
  | start => exact h
  | next _ hs ih => exact .next ih hs

/-- A run passes through what its label in the middle leads to. -/
theorem split {later earlier : List α} {a : α} (h : Run step init (later ++ a :: earlier) s) :
    ∃ r t, Run step init earlier r ∧ step r a t ∧ Run step t later s := by
  induction later generalizing s with
  | nil =>
    cases h with
    | next hr hs => exact ⟨_, _, hr, hs, .start⟩
  | cons b later ih =>
    cases h with
    | next hr hs =>
      obtain ⟨r, t, hbefore, hstep, hlater⟩ := ih hr
      exact ⟨r, t, hbefore, hstep, .next hlater hs⟩

theorem of_foldlM {f : σ → α → Option σ} (h : as.foldlM f init = some s) :
    Run (fun s a t => f s a = some t) init as.reverse s := by
  induction as generalizing init with
  | nil =>
    cases h
    exact .start
  | cons a as ih =>
    rw [List.foldlM_cons] at h
    obtain ⟨t, ht, hrest⟩ := Option.bind_eq_some_iff.mp h
    rw [List.reverse_cons]
    exact append (.next .start ht) (ih hrest)

end Run

/-- Some step of the run satisfied `P`, and no label after it satisfies `stop`.
`P` reads the labels before the step, the state it was taken from, its own label
and the state it led to. -/
def Occurred (step : σ → α → σ → Prop) (init : σ) (stop : α → Prop)
    (P : List α → σ → α → σ → Prop) (as : List α) : Prop :=
  ∃ later a earlier s t, as = later ++ a :: earlier ∧ Run step init earlier s ∧ step s a t ∧
    P earlier s a t ∧ ∀ b ∈ later, ¬ stop b

namespace Occurred

variable {step : σ → α → σ → Prop} {init : σ} {stop : α → Prop} {P : List α → σ → α → σ → Prop}

variable {a : α} {as : List α}

theorem here {s t : σ} (hr : Run step init as s) (hs : step s a t) (hp : P as s a t) :
    Occurred step init stop P (a :: as) :=
  ⟨[], a, as, s, t, rfl, hr, hs, hp, by simp⟩

theorem later (h : Occurred step init stop P as) (ha : ¬ stop a) :
    Occurred step init stop P (a :: as) := by
  obtain ⟨ls, b, es, s, t, rfl, hr, hs, hp, hno⟩ := h
  refine ⟨a :: ls, b, es, s, t, rfl, hr, hs, hp, ?_⟩
  intro c hc
  rcases List.mem_cons.mp hc with rfl | hc
  · exact ha
  · exact hno c hc

/-- What occurred by now occurred before the newest label if that one cannot
satisfy `P`. -/
theorem earlier (h : Occurred step init stop P (a :: as)) (ha : ∀ es s t, ¬ P es s a t) :
    Occurred step init stop P as := by
  obtain ⟨ls, b, es, s, t, heq, hr, hs, hp, hno⟩ := h
  cases ls with
  | nil =>
    obtain ⟨rfl, -⟩ := List.cons.inj heq
    exact absurd hp (ha es s t)
  | cons c ls =>
    obtain ⟨-, rfl⟩ := List.cons.inj heq
    exact ⟨ls, b, es, s, t, rfl, hr, hs, hp, fun x hx => hno x (List.mem_cons_of_mem c hx)⟩

end Occurred

end Orkworksd.Lib
