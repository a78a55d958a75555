import Mathlib.Logic.Basic
import Mathlib.Data.List.Basic

/- Programs that may crash. A `Prog σ ε α` runs from a durable state `σ`; its
   `Outcome` keeps, beside the result and the last state, every state a crash may
   leave behind, in order. `step` is one atomic durable change; `during` is a
   change that is not atomic and lists what a crash in the middle may leave.

   `Meets p s post err crash` is the logic: run from `s`, every crash state of `p`
   satisfies `crash`, a returned value satisfies `post` and an error `err`. There
   is one rule per program constructor. `Crashed p s t` says that `t` is reached
   from `s` by any number of runs of `p` that each crashed on the way, which is
   how a recovery procedure is entered. -/
namespace Orkworksd.Lib
open List

structure Outcome (σ ε α : Type) where
  states : List σ
  result : Except ε α
  last : σ

def Prog (σ ε α : Type) : Type := σ → Outcome σ ε α

namespace Prog

variable {σ ε α β : Type}

def pure (a : α) : Prog σ ε α := fun s => ⟨[], .ok a, s⟩

def fail (e : ε) : Prog σ ε α := fun s => ⟨[], .error e, s⟩

def bind (p : Prog σ ε α) (f : α → Prog σ ε β) : Prog σ ε β := fun s =>
  match (p s).result with
  | .ok a =>
    let rest := f a (p s).last
    ⟨(p s).states ++ rest.states, rest.result, rest.last⟩
  | .error e => ⟨(p s).states, .error e, (p s).last⟩

instance : Monad (Prog σ ε) where
  pure := Prog.pure
  bind := Prog.bind

/-- Look at the state. -/
def look (f : σ → α) : Prog σ ε α := fun s => ⟨[], .ok (f s), s⟩

/-- A computation that only looks at the state and may fail. -/
def check (f : σ → Except ε α) : Prog σ ε α := fun s => ⟨[], f s, s⟩

/-- A change whose middle a crash may expose. -/
def during (mid : σ → List σ) (f : σ → σ) : Prog σ ε Unit := fun s => ⟨mid s ++ [f s], .ok (), f s⟩

/-- One atomic change. -/
def step (f : σ → σ) : Prog σ ε Unit := during (fun _ => []) f

/-- Run `p` and hand its failure on as a value. -/
def attempt (p : Prog σ ε α) : Prog σ ε (Except ε α) := fun s =>
  ⟨(p s).states, .ok (p s).result, (p s).last⟩

def forEach (body : β → Prog σ ε Unit) : List β → Prog σ ε Unit
  | [] => pure ()
  | b :: bs => body b >>= fun _ => forEach body bs

theorem forEach_map {γ : Type} (body : β → Prog σ ε Unit) (f : γ → β) (l : List γ) :
    forEach body (l.map f) = forEach (fun c => body (f c)) l := by
  induction l with
  | nil => rfl
  | cons c l ih => simp only [map_cons, forEach, ih]

/-! ## The logic -/

/-- Run from `s`, every crash state satisfies `crash`, a returned value `post`
and an error `err`. -/
structure Meets (p : Prog σ ε α) (s : σ) (post : α → σ → Prop) (err : ε → σ → Prop)
    (crash : σ → Prop) : Prop where
  states : ∀ t ∈ (p s).states, crash t
  ok : ∀ a, (p s).result = .ok a → post a (p s).last
  error : ∀ e, (p s).result = .error e → err e (p s).last

namespace Meets

variable {s : σ} {post : α → σ → Prop} {err : ε → σ → Prop} {crash : σ → Prop}

theorem pure' {a : α} (h : post a s) : Meets (pure a) s post err crash where
  states := by simp [pure]
  ok := by
    intro b hb
    cases hb
    exact h
  error := by
    intro e he
    cases he

theorem fail' {e : ε} (h : err e s) : Meets (fail e : Prog σ ε α) s post err crash where
  states := by simp [fail]
  ok := by
    intro a ha
    cases ha
  error := by
    intro e' he
    cases he
    exact h

theorem look' {f : σ → α} (h : post (f s) s) : Meets (look f) s post err crash :=
  ⟨by simp [look], by intro b hb; cases hb; exact h, by intro e he; cases he⟩

theorem check' {f : σ → Except ε α} (hok : ∀ a, f s = .ok a → post a s)
    (herr : ∀ e, f s = .error e → err e s) : Meets (check f) s post err crash :=
  ⟨by simp [check], hok, herr⟩

theorem check_ok {f : σ → Except ε α} {a : α} (hf : f s = .ok a) (h : post a s) :
    Meets (check f) s post err crash :=
  check' (fun _ hb => Except.ok.inj (hf.symm.trans hb) ▸ h) (fun _ he => nomatch hf.symm.trans he)

theorem during' {mid : σ → List σ} {f : σ → σ} {post : Unit → σ → Prop}
    (hmid : ∀ t ∈ mid s, crash t) (hlast : crash (f s)) (h : post () (f s)) :
    Meets (during mid f) s post err crash where
  states := by
    intro t ht
    rcases mem_append.mp ht with ht | ht
    · exact hmid t ht
    · rw [mem_singleton.mp ht]
      exact hlast
  ok := by
    intro a ha
    cases ha
    exact h
  error := by
    intro e he
    cases he

theorem step' {f : σ → σ} {post : Unit → σ → Prop} (hlast : crash (f s)) (h : post () (f s)) :
    Meets (step f) s post err crash :=
  during' (by simp) hlast h

variable {p : Prog σ ε α}

theorem bind' {f : α → Prog σ ε β} {post : β → σ → Prop}
    (h : Meets p s (fun a t => Meets (f a) t post err crash) err crash) :
    Meets (p >>= f) s post err crash := by
  have hbind : (p >>= f) s = Prog.bind p f s := rfl
  cases hr : (p s).result with
  | ok a =>
    have hf := h.ok a hr
    refine ⟨?_, ?_, ?_⟩
    · intro t ht
      simp only [hbind, Prog.bind, hr] at ht
      rcases mem_append.mp ht with ht | ht
      · exact h.states t ht
      · exact hf.states t ht
    · intro b hb
      simp only [hbind, Prog.bind, hr] at hb ⊢
      exact hf.ok b hb
    · intro e he
      simp only [hbind, Prog.bind, hr] at he ⊢
      exact hf.error e he
  | error e =>
    refine ⟨?_, ?_, ?_⟩
    · intro t ht
      simp only [hbind, Prog.bind, hr] at ht
      exact h.states t ht
    · intro b hb
      simp [hbind, Prog.bind, hr] at hb
    · intro e' he
      simp only [hbind, Prog.bind, hr, Except.error.injEq] at he ⊢
      subst he
      exact h.error e hr

variable {err' : ε → σ → Prop}

theorem mono {post' : α → σ → Prop} {crash' : σ → Prop} (h : Meets p s post err crash)
    (hpost : ∀ a t, post a t → post' a t) (herr : ∀ e t, err e t → err' e t)
    (hcrash : ∀ t, crash t → crash' t) : Meets p s post' err' crash' :=
  ⟨fun t ht => hcrash t (h.states t ht), fun a ha => hpost a _ (h.ok a ha),
    fun e he => herr e _ (h.error e he)⟩

theorem seq {f : α → Prog σ ε β} {mid : α → σ → Prop} {post : β → σ → Prop}
    (hp : Meets p s mid err crash) (hf : ∀ a t, mid a t → Meets (f a) t post err crash) :
    Meets (p >>= f) s post err crash :=
  bind' (hp.mono hf (fun _ _ h => h) (fun _ h => h))

theorem attempt' {post : Except ε α → σ → Prop}
    (h : Meets p s (fun a t => post (.ok a) t) (fun e t => post (.error e) t) crash) :
    Meets (attempt p) s post err' crash where
  states := h.states
  ok := by
    intro r hr
    cases hr
    cases hres : (p s).result with
    | ok a => exact h.ok a hres
    | error e => exact h.error e hres
  error := by
    intro e he
    cases he

theorem ite' {c : Prop} [Decidable c] {q : Prog σ ε α} (hp : c → Meets p s post err crash)
    (hq : ¬ c → Meets q s post err crash) : Meets (if c then p else q) s post err crash := by
  by_cases h : c
  · rw [if_pos h]; exact hp h
  · rw [if_neg h]; exact hq h

/-- The loop rule: `inv` holds of the items still to come. -/
theorem forEach' {body : β → Prog σ ε Unit} {inv : List β → σ → Prop} {err : ε → σ → Prop}
    {crash : σ → Prop}
    (hbody : ∀ b bs t, inv (b :: bs) t → Meets (body b) t (fun _ u => inv bs u) err crash)
    (bs : List β) {s : σ} (h : inv bs s) :
    Meets (forEach body bs) s (fun _ t => inv [] t) err crash := by
  induction bs generalizing s with
  | nil => exact pure' h
  | cons b bs ih => exact seq (hbody b bs s h) (fun _ t ht => ih ht)

end Meets

/-! ## Where a run crashed -/

/-- A run of `p` from `s` passed through `before` and crashed at `d`. -/
def CrashesAt (p : Prog σ ε α) (s : σ) (before : List σ) (d : σ) : Prop :=
  ∃ later, s :: (p s).states = before ++ d :: later

theorem bind_states (p : Prog σ ε α) (f : α → Prog σ ε β) (s : σ) :
    ((p >>= f) s).states = (p s).states ++
      match (p s).result with
      | .ok a => (f a (p s).last).states
      | .error _ => [] := by
  have hbind : (p >>= f) s = Prog.bind p f s := rfl
  cases hr : (p s).result with
  | ok a => simp [hbind, Prog.bind, hr]
  | error e => simp [hbind, Prog.bind, hr]

variable {f : α → Prog σ ε β} {p : Prog σ ε α}

theorem bind_of_ok {s : σ} {a : α} (h : (p s).result = .ok a) :
    ((p >>= f) s).result = (f a (p s).last).result ∧ ((p >>= f) s).last = (f a (p s).last).last := by
  have hbind : (p >>= f) s = Prog.bind p f s := rfl
  simp [hbind, Prog.bind, h]

theorem bind_of_error {s : σ} {e : ε} (h : (p s).result = .error e) :
    ((p >>= f) s).result = .error e ∧ ((p >>= f) s).last = (p s).last := by
  have hbind : (p >>= f) s = Prog.bind p f s := rfl
  simp [hbind, Prog.bind, h]

theorem CrashesAt.bind_cases {s d : σ} {before : List σ} (h : CrashesAt (p >>= f) s before d) :
    CrashesAt p s before d ∨ ∃ a mid later, (p s).result = .ok a ∧
      before = s :: (p s).states ++ mid ∧ (f a (p s).last).states = mid ++ d :: later := by
  obtain ⟨later, h⟩ := h
  rw [bind_states, ← cons_append] at h
  rcases append_eq_append_iff.mp h with ⟨mid, hmid, hrest⟩ | ⟨rest, hbefore, hrest⟩
  · cases hr : (p s).result with
    | ok a =>
      rw [hr] at hrest
      exact .inr ⟨a, mid, later, rfl, hmid, hrest⟩
    | error e =>
      rw [hr] at hrest
      simp at hrest
  · cases rest with
    | nil =>
      cases hr : (p s).result with
      | ok a =>
        rw [hr] at hrest
        exact .inr ⟨a, [], later, rfl, by simpa using hbefore.symm, by simpa using hrest.symm⟩
      | error e =>
        rw [hr] at hrest
        simp at hrest
    | cons x rest =>
      obtain ⟨rfl, -⟩ := List.cons.inj hrest
      exact .inl ⟨rest, hbefore⟩

/-! ## Crashes of a recovery procedure -/

/-- `t` is reached from `s` by runs of `p` that each crashed on the way. -/
inductive Crashed (p : Prog σ ε α) : σ → σ → Prop where
  | none (s : σ) : Crashed p s s
  | again {s t u : σ} : Crashed p s t → u ∈ (p t).states → Crashed p s u

theorem Crashed.invariant (Inv : σ → Prop) (hcrash : ∀ s, Inv s → ∀ t ∈ (p s).states, Inv t)
    {s t : σ} (h : Crashed p s t) (hs : Inv s) : Inv t := by
  induction h with
  | none => exact hs
  | again _ hu ih => exact hcrash _ ih _ hu

end Prog

end Orkworksd.Lib
