import Mathlib.Data.List.Perm.Subperm
import Mathlib.Logic.Relation

/- Depth-first search for a cycle, with three colours.

   `next` gives the places that follow a place, or nothing for a place that is not there.
   `visit` keeps the path it is on and the places that are done; it meets a cycle where it
   comes to a place of the path again. `fuel` bounds the depth: the path has no place twice,
   so more fuel than places is never used up.

   `search_ok_iff`: over a finite closed set of places the search accepts exactly where no
   place reaches itself, and otherwise it reports a cycle, never a missing place or the end of
   the fuel. -/
namespace Orkworksd.Lib.DepthFirst
open List

inductive Fault where
  | cycle
  | missing
  | exhausted
  deriving DecidableEq, Repr

variable {α : Type}

/-- The path, its end first, and the places that are done. -/
abbrev Marks (α : Type) : Type := List α × List α

def visit [DecidableEq α] (next : α → Option (List α)) : Nat → α → Marks α → Except Fault (Marks α)
  | 0, _, _ => .error .exhausted
  | fuel + 1, a, (path, done) =>
    if done.contains a then .ok (path, done)
    else if path.contains a then .error .cycle
    else
      match next a with
      | none => .error .missing
      | some places => do
        let marks ← places.foldlM (fun marks b => visit next fuel b marks) (a :: path, done)
        .ok (marks.1.erase a, a :: marks.2)

/-- A visit of every place in turn. -/
def search [DecidableEq α] (next : α → Option (List α)) (fuel : Nat) (places : List α) :
    Except Fault (Marks α) :=
  places.foldlM (fun marks a => visit next fuel a marks) ([], [])

def Edge (next : α → Option (List α)) (a b : α) : Prop :=
  ∃ places, next a = some places ∧ b ∈ places

/-- No place reaches itself. -/
def Acyclic (next : α → Option (List α)) : Prop := ∀ a, ¬ Relation.TransGen (Edge next) a a

/-- Everything that follows a place is a place again. -/
def Closed (next : α → Option (List α)) (places : List α) : Prop :=
  ∀ a ∈ places, ∃ following, next a = some following ∧ ∀ b ∈ following, b ∈ places

/-- What is done is closed, and no cycle goes through it; the path has no place twice. -/
structure Inv (next : α → Option (List α)) (places : List α) (marks : Marks α) : Prop where
  distinct : marks.1.Nodup
  path : ∀ a ∈ marks.1, a ∈ places
  apart : ∀ a ∈ marks.1, a ∉ marks.2
  closed : ∀ a ∈ marks.2, ∀ b, Edge next a b → b ∈ marks.2
  acyclic : ∀ a ∈ marks.2, ¬ Relation.TransGen (Edge next) a a

/-- A visit returns to its path with more places done, or it has met a cycle. -/
inductive Visited (next : α → Option (List α)) (places : List α) (marks : Marks α) (wanted : List α) :
    Except Fault (Marks α) → Prop where
  | ok {done : List α} (hinv : Inv next places (marks.1, done))
      (hdone : ∀ a ∈ marks.2, a ∈ done) (hwanted : ∀ a ∈ wanted, a ∈ done) :
      Visited next places marks wanted (.ok (marks.1, done))
  | cycle {a : α} (ha : Relation.TransGen (Edge next) a a) :
      Visited next places marks wanted (.error .cycle)

section invariant
variable {next : α → Option (List α)} {places : List α}

variable {a : α}

theorem Inv.reach {marks : Marks α} (h : Inv next places marks) {b : α} (ha : a ∈ marks.2)
    (hab : Relation.ReflTransGen (Edge next) a b) : b ∈ marks.2 := by
  induction hab with
  | refl => exact ha
  | tail _ hedge ih => exact h.closed _ ih _ hedge

variable {path done : List α}

theorem Inv.push (h : Inv next places (path, done)) (ha : a ∈ places) (hpath : a ∉ path)
    (hdone : a ∉ done) : Inv next places (a :: path, done) where
  distinct := nodup_cons.mpr ⟨hpath, h.distinct⟩
  path := forall_mem_cons.mpr ⟨ha, h.path⟩
  apart := forall_mem_cons.mpr ⟨hdone, h.apart⟩
  closed := h.closed
  acyclic := h.acyclic

theorem Inv.pop {following : List α} (h : Inv next places (a :: path, done))
    (hnext : next a = some following) (hfollowing : ∀ b ∈ following, b ∈ done) :
    Inv next places (path, a :: done) where
  distinct := (nodup_cons.mp h.distinct).2
  path := fun b hb => h.path b (mem_cons_of_mem _ hb)
  apart := by
    intro b hb hmem
    rcases mem_cons.mp hmem with rfl | hmem
    · exact (nodup_cons.mp h.distinct).1 hb
    · exact h.apart b (mem_cons_of_mem _ hb) hmem
  closed := by
    intro b hb c hedge
    rcases mem_cons.mp hb with rfl | hb
    · obtain ⟨places', hplaces, hc⟩ := hedge
      rw [hnext] at hplaces
      cases hplaces
      exact mem_cons_of_mem _ (hfollowing c hc)
    · exact mem_cons_of_mem _ (h.closed b hb c hedge)
  acyclic := by
    intro b hb hcycle
    rcases mem_cons.mp hb with rfl | hb
    · -- the first step leads to what is done, and that does not lead back to the path
      obtain ⟨c, ⟨places', hplaces, hc⟩, hback⟩ := Relation.TransGen.head'_iff.mp hcycle
      rw [hnext] at hplaces
      cases hplaces
      exact h.apart b mem_cons_self (h.reach (hfollowing c hc) hback)
    · exact h.acyclic b hb hcycle

end invariant

section visits
variable [DecidableEq α] {next : α → Option (List α)} {places : List α}

theorem foldlM_visited (fuel : Nat) (path wanted : List α)
    (hvisit : ∀ a ∈ wanted, ∀ done, Inv next places (path, done) →
      Visited next places (path, done) [a] (visit next fuel a (path, done)))
    (done : List α) (hinv : Inv next places (path, done)) :
    Visited next places (path, done) wanted
      (wanted.foldlM (fun marks a => visit next fuel a marks) (path, done)) := by
  induction wanted generalizing done with
  | nil => exact .ok hinv (fun _ h => h) (fun _ h => nomatch h)
  | cons a wanted ih =>
    have hfirst := hvisit a mem_cons_self done hinv
    rw [foldlM_cons]
    generalize visit next fuel a (path, done) = first at hfirst
    cases hfirst with
    | cycle hcycle => exact .cycle hcycle
    | @ok done₁ hinv₁ hdone₁ hwanted₁ =>
      have hrest := ih (fun b hb => hvisit b (mem_cons_of_mem _ hb)) done₁ hinv₁
      show Visited _ _ _ _ (wanted.foldlM (fun marks a => visit next fuel a marks) (path, done₁))
      generalize wanted.foldlM (fun marks a => visit next fuel a marks) (path, done₁) = rest at hrest
      cases hrest with
      | cycle hcycle => exact .cycle hcycle
      | ok hinv₂ hdone₂ hwanted₂ =>
        refine .ok hinv₂ (fun b hb => hdone₂ b (hdone₁ b hb)) ?_
        refine forall_mem_cons.mpr ⟨?_, hwanted₂⟩
        exact hdone₂ a (hwanted₁ a (mem_singleton_self a))

theorem visit_visited (hclosed : Closed next places) (fuel : Nat) {a : α} {path done : List α}
    (ha : a ∈ places) (hinv : Inv next places (path, done))
    (hpath : ∀ b ∈ path, Relation.TransGen (Edge next) b a)
    (hfuel : places.length < fuel + path.length) :
    Visited next places (path, done) [a] (visit next fuel a (path, done)) := by
  induction fuel generalizing a path done with
  | zero =>
    have hle : path.length ≤ places.length := (hinv.distinct.subperm hinv.path).length_le
    omega
  | succ fuel ih =>
    rw [visit]
    by_cases hdone : a ∈ done
    · rw [if_pos (contains_iff_mem.mpr hdone)]
      exact .ok hinv (fun _ h => h) (by simpa using hdone)
    · rw [if_neg (fun h => hdone (contains_iff_mem.mp h))]
      by_cases hmem : a ∈ path
      · rw [if_pos (contains_iff_mem.mpr hmem)]
        exact .cycle (hpath a hmem)
      · rw [if_neg (fun h => hmem (contains_iff_mem.mp h))]
        obtain ⟨following, hnext, hplaces⟩ := hclosed a ha
        rw [hnext]
        have hpush := hinv.push ha hmem hdone
        have hfold := foldlM_visited fuel (a :: path) following (fun b hb done' hinv' => ?_) done hpush
        · show Visited _ _ _ _ (following.foldlM (fun marks b => visit next fuel b marks)
            (a :: path, done) >>= fun marks => .ok (marks.1.erase a, a :: marks.2))
          generalize following.foldlM (fun marks b => visit next fuel b marks) (a :: path, done) =
            result at hfold
          cases hfold with
          | cycle hcycle => exact .cycle hcycle
          | @ok done' hinv' hdone' hfollowing =>
            have hpop := hinv'.pop hnext hfollowing
            show Visited _ _ _ _ (.ok ((a :: path).erase a, a :: done'))
            rw [erase_cons_head]
            exact .ok hpop (fun b hb => mem_cons_of_mem _ (hdone' b hb))
              (by simp)
        · refine ih (hplaces b hb) hinv' ?_ ?_
          · have hedge : Edge next a b := ⟨following, hnext, hb⟩
            exact forall_mem_cons.mpr ⟨.single hedge, fun c hc => (hpath c hc).tail hedge⟩
          · rw [length_cons]
            omega

variable {fuel : Nat}

theorem search_visited (hclosed : Closed next places) (hfuel : places.length < fuel) :
    Visited next places ([], []) places (search next fuel places) := by
  have hinv : Inv next places (([] : List α), []) :=
    ⟨nodup_nil, by simp, by simp, by simp, by simp⟩
  refine foldlM_visited fuel [] places (fun a ha done h => ?_) [] hinv
  exact visit_visited hclosed fuel ha h (by simp) hfuel

theorem search_ok_iff (hclosed : Closed next places)
    (hplaces : ∀ a places', next a = some places' → a ∈ places) (hfuel : places.length < fuel) :
    (∃ marks, search next fuel places = .ok marks) ↔ Acyclic next := by
  have h := search_visited hclosed hfuel
  generalize search next fuel places = result at h
  cases h with
  | @ok done hinv _ hdone =>
    refine ⟨fun _ a hcycle => ?_, fun _ => ⟨_, rfl⟩⟩
    obtain ⟨b, ⟨places', hnext, -⟩, -⟩ := Relation.TransGen.head'_iff.mp hcycle
    exact hinv.acyclic a (hdone a (hplaces a places' hnext)) hcycle
  | @cycle a hcycle =>
    refine ⟨fun hok => ?_, fun hacyclic => absurd hcycle (hacyclic a)⟩
    obtain ⟨marks, hmarks⟩ := hok
    cases hmarks

theorem search_error (hclosed : Closed next places) (hfuel : places.length < fuel) {fault : Fault}
    (h : search next fuel places = .error fault) : fault = .cycle := by
  have hvisited := search_visited hclosed hfuel
  rw [h] at hvisited
  cases hvisited
  rfl

/-! ## More fuel changes nothing -/

omit [DecidableEq α] in
theorem foldlM_mono {β ε : Type} {f g : β → α → Except ε β}
    (hfg : ∀ b a b', f b a = .ok b' → g b a = .ok b') (as : List α) {b b' : β}
    (h : as.foldlM f b = .ok b') : as.foldlM g b = .ok b' := by
  induction as generalizing b with
  | nil => exact h
  | cons a as ih =>
    rw [foldlM_cons] at h ⊢
    cases hfirst : f b a with
    | error e =>
      rw [hfirst] at h
      cases h
    | ok b₁ =>
      rw [hfirst] at h
      rw [hfg b a b₁ hfirst]
      exact ih h

variable {fuel' : Nat}

theorem visit_mono (hle : fuel ≤ fuel') {a : α} {marks marks' : Marks α}
    (h : visit next fuel a marks = .ok marks') : visit next fuel' a marks = .ok marks' := by
  induction fuel generalizing fuel' a marks marks' with
  | zero => cases h
  | succ fuel ih =>
    obtain ⟨fuel', rfl⟩ := Nat.exists_eq_add_of_lt (Nat.lt_of_lt_of_le (Nat.zero_lt_succ fuel) hle)
    rw [Nat.zero_add] at hle ⊢
    rw [visit] at h ⊢
    by_cases hdone : marks.2.contains a
    · rw [if_pos hdone] at h ⊢
      exact h
    · rw [if_neg hdone] at h ⊢
      by_cases hpath : marks.1.contains a
      · rw [if_pos hpath] at h
        cases h
      · rw [if_neg hpath] at h ⊢
        cases hnext : next a with
        | none =>
          rw [hnext] at h
          cases h
        | some following =>
          rw [hnext] at h
          dsimp only at h ⊢
          cases hfold : following.foldlM (fun marks b => visit next fuel b marks)
              (a :: marks.1, marks.2) with
          | error e =>
            rw [hfold] at h
            cases h
          | ok marks₁ =>
            rw [hfold] at h
            rw [foldlM_mono (fun _ _ _ => ih (Nat.le_of_succ_le_succ hle)) following hfold]
            exact h

theorem search_fuel (hclosed : Closed next places)
    (hplaces : ∀ a places', next a = some places' → a ∈ places) (hfuel : places.length < fuel)
    (hle : fuel ≤ fuel') : search next fuel' places = search next fuel places := by
  cases h : search next fuel places with
  | ok marks => exact foldlM_mono (fun _ _ _ => visit_mono hle) places h
  | error fault =>
    have hfuel' : places.length < fuel' := Nat.lt_of_lt_of_le hfuel hle
    rw [search_error hclosed hfuel h]
    cases h' : search next fuel' places with
    | error fault' => rw [search_error hclosed hfuel' h']
    | ok marks =>
      have hacyclic := (search_ok_iff hclosed hplaces hfuel').mp ⟨marks, h'⟩
      obtain ⟨marks', hmarks'⟩ := (search_ok_iff hclosed hplaces hfuel).mpr hacyclic
      rw [h] at hmarks'
      cases hmarks'

end visits

end Orkworksd.Lib.DepthFirst
