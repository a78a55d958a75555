import Mathlib.Data.List.Dedup
import Orkworksd.Observations.Journal

/- What the spam trim drops (`session_drop_indices`).

   The pass over one fingerprint keeps the time of the last kept occurrence. `Spec` says the
   same without a pass: an occurrence is dropped where the nearest kept one before it that has
   a time is at most the window older. The set of the dropped indices is the only one with
   that property, by induction over the indices.

   Main result: `session_trim_spec`. -/
namespace Orkworksd.Observations
open List

open Taskmaster (ObservationSource)

variable {lastKeptAt : Option Timestamp}

variable {protectedIds : List String} {index : Nat}

/-! ## One step of the pass -/

section pass
variable (env : Env) (protectedIds : List String)

/-- An occurrence that is not the latest is dropped after this kept time. -/
def dropsAfter (lastKeptAt : Option Timestamp) (stored : StoredObservation) : Prop :=
  stored.observation.id ∉ protectedIds ∧
    ∃ observedAt ∈ env.parseRfc3339 stored.observation.observedAt, ∃ prevAt ∈ lastKeptAt,
      0 ≤ observedAt.nanos - prevAt.nanos ∧
      observedAt.nanos - prevAt.nanos ≤ spamWindowSecs * nanosPerSec

instance dropsAfterDecidable (lastKeptAt : Option Timestamp) (stored : StoredObservation) :
    Decidable (dropsAfter env protectedIds lastKeptAt stored) :=
  inferInstanceAs (Decidable (_ ∧ ∃ observedAt ∈ _, ∃ prevAt ∈ _, _ ∧ _))

/-- The kept time after an occurrence that is not the latest. -/
def keptAfter (lastKeptAt : Option Timestamp) (stored : StoredObservation) :
    Option Timestamp :=
  if dropsAfter env protectedIds lastKeptAt stored then lastKeptAt
  else (env.parseRfc3339 stored.observation.observedAt).or lastKeptAt

variable {env protectedIds}

variable (lastKeptAt : Option Timestamp)

theorem dropPass_cons (stored : StoredObservation) (index : Nat)
    {rest : List (StoredObservation × Nat)} (hrest : rest ≠ []) :
    (dropsAfter env protectedIds lastKeptAt stored ∧
      dropPass env protectedIds lastKeptAt ((stored, index) :: rest) =
        index :: dropPass env protectedIds lastKeptAt rest) ∨
      (¬ dropsAfter env protectedIds lastKeptAt stored ∧
        dropPass env protectedIds lastKeptAt ((stored, index) :: rest) =
          dropPass env protectedIds ((env.parseRfc3339 stored.observation.observedAt).or lastKeptAt)
            rest) := by
  have hempty : rest.isEmpty = false := by simpa using hrest
  rw [dropPass]
  by_cases hid : stored.observation.id ∈ protectedIds
  · refine .inr ⟨fun h => h.1 hid, ?_⟩
    simp [hid]
  · simp only [contains_eq_mem, hid, decide_false, Bool.false_eq_true, if_false, hempty]
    cases htime : env.parseRfc3339 stored.observation.observedAt with
    | none =>
      refine .inr ⟨?_, rfl⟩
      intro h
      obtain ⟨-, observedAt, hparse, -⟩ := h
      rw [htime] at hparse
      cases hparse
    | some observedAt =>
      cases lastKeptAt with
      | none =>
        refine .inr ⟨?_, rfl⟩
        intro h
        obtain ⟨-, observedAt, -, prevAt, hprev, -⟩ := h
        cases hprev
      | some prevAt =>
        dsimp only
        split
        · rename_i hgap
          exact .inl ⟨⟨hid, observedAt, htime, prevAt, rfl, hgap.1, hgap.2⟩, rfl⟩
        · rename_i hgap
          refine .inr ⟨?_, rfl⟩
          intro h
          obtain ⟨-, observedAt', hparse, prevAt', hprev, hlow, hhigh⟩ := h
          rw [htime] at hparse
          cases hparse
          cases hprev
          exact hgap ⟨hlow, hhigh⟩

theorem dropPass_singleton (p : StoredObservation × Nat) :
    dropPass env protectedIds lastKeptAt [p] = [] := by
  obtain ⟨stored, index⟩ := p
  rw [dropPass]
  split
  · rfl
  · rfl

variable {stored : StoredObservation}

theorem keptAfter_of_drops {lastKeptAt : Option Timestamp}
    (h : dropsAfter env protectedIds lastKeptAt stored) :
    keptAfter env protectedIds lastKeptAt stored = lastKeptAt := if_pos h

theorem keptAfter_of_keeps {lastKeptAt : Option Timestamp}
    (h : ¬ dropsAfter env protectedIds lastKeptAt stored) :
    keptAfter env protectedIds lastKeptAt stored =
      (env.parseRfc3339 stored.observation.observedAt).or lastKeptAt := if_neg h

variable (env protectedIds) in
/-- The kept time after some occurrences. -/
def keptThrough (lastKeptAt : Option Timestamp)
    (occurrences : List (StoredObservation × Nat)) : Option Timestamp :=
  occurrences.foldl (fun last p => keptAfter env protectedIds last p.1) lastKeptAt

variable {occurrences : List (StoredObservation × Nat)}

theorem mem_dropPass {lastKeptAt : Option Timestamp} :
    index ∈ dropPass env protectedIds lastKeptAt occurrences ↔
      ∃ before stored after, occurrences = before ++ (stored, index) :: after ∧ after ≠ [] ∧
        dropsAfter env protectedIds (keptThrough env protectedIds lastKeptAt before) stored := by
  induction occurrences generalizing lastKeptAt with
  | nil =>
    refine ⟨fun h => (nomatch h), fun h => ?_⟩
    obtain ⟨before, stored, after, heq, -⟩ := h
    cases before <;> cases heq
  | cons p rest ih =>
    obtain ⟨stored, i⟩ := p
    by_cases hrest : rest = []
    · subst hrest
      rw [dropPass_singleton]
      refine ⟨fun h => (nomatch h), fun h => ?_⟩
      obtain ⟨before, stored', after, heq, hafter, -⟩ := h
      cases before with
      | nil =>
        cases heq
        exact absurd rfl hafter
      | cons p before => cases before <;> cases heq
    · -- the occurrence itself, or one of the rest, whose kept time goes through it
      have hsplit : (∃ before stored' after, (stored, i) :: rest = before ++ (stored', index) :: after ∧
          after ≠ [] ∧ dropsAfter env protectedIds
            (keptThrough env protectedIds lastKeptAt before) stored') ↔
          (index = i ∧ dropsAfter env protectedIds lastKeptAt stored) ∨
            index ∈ dropPass env protectedIds (keptAfter env protectedIds lastKeptAt stored) rest := by
        rw [ih]
        constructor
        · intro h
          obtain ⟨before, stored', after, heq, hafter, hdrops⟩ := h
          cases before with
          | nil =>
            cases heq
            exact .inl ⟨rfl, hdrops⟩
          | cons p before =>
            cases heq
            exact .inr ⟨before, stored', after, rfl, hafter, hdrops⟩
        · intro h
          rcases h with ⟨rfl, hdrops⟩ | ⟨before, stored', after, rfl, hafter, hdrops⟩
          · exact ⟨[], stored, rest, rfl, hrest, hdrops⟩
          · exact ⟨(stored, i) :: before, stored', after, rfl, hafter, hdrops⟩
      rw [hsplit]
      rcases dropPass_cons lastKeptAt stored i hrest with ⟨hdrops, heq⟩ | ⟨hkeeps, heq⟩
      · rw [heq, mem_cons, keptAfter_of_drops hdrops]
        simp [hdrops]
      · rw [heq, keptAfter_of_keeps hkeeps]
        simp [hkeeps]

theorem keptThrough_append (before : List (StoredObservation × Nat)) (p : StoredObservation × Nat) :
    keptThrough env protectedIds lastKeptAt (before ++ [p]) =
      keptAfter env protectedIds (keptThrough env protectedIds lastKeptAt before) p.1 := by
  rw [keptThrough, foldl_append]
  rfl

theorem keptThrough_eq_some {D : Nat → Prop} (hsorted : occurrences.Pairwise (fun p q => p.2 < q.2))
    (hD : ∀ before stored index after, occurrences = before ++ (stored, index) :: after →
      (D index ↔ dropsAfter env protectedIds (keptThrough env protectedIds none before) stored))
    {s : Timestamp} : keptThrough env protectedIds none occurrences = some s ↔
      ∃ p ∈ occurrences, ¬ D p.2 ∧ env.parseRfc3339 p.1.observation.observedAt = some s ∧
        ∀ q ∈ occurrences, p.2 < q.2 →
          D q.2 ∨ env.parseRfc3339 q.1.observation.observedAt = none := by
  induction occurrences using List.reverseRecOn with
  | nil => simp [keptThrough]
  | append_singleton before p ih =>
    obtain ⟨hbefore, -, hlast⟩ := pairwise_append.mp hsorted
    have hp : D p.2 ↔ dropsAfter env protectedIds (keptThrough env protectedIds none before) p.1 :=
      hD before p.1 p.2 [] rfl
    have hless : ∀ q ∈ before, q.2 < p.2 := fun q hq => hlast q hq p (mem_singleton_self p)
    have ih := ih hbefore (fun a stored index b heq => by
      refine hD a stored index (b ++ [p]) ?_
      rw [heq, append_assoc]
      rfl)
    rw [keptThrough_append]
    -- what is passed over leaves the nearest kept occurrence where it was
    have hpassed : D p.2 ∨ env.parseRfc3339 p.1.observation.observedAt = none →
        ((∃ q ∈ before ++ [p], ¬ D q.2 ∧ env.parseRfc3339 q.1.observation.observedAt = some s ∧
          ∀ r ∈ before ++ [p], q.2 < r.2 →
            D r.2 ∨ env.parseRfc3339 r.1.observation.observedAt = none) ↔
          ∃ q ∈ before, ¬ D q.2 ∧ env.parseRfc3339 q.1.observation.observedAt = some s ∧
            ∀ r ∈ before, q.2 < r.2 →
              D r.2 ∨ env.parseRfc3339 r.1.observation.observedAt = none) := by
      intro hpass
      constructor
      · intro h
        obtain ⟨q, hq, hkept, htime, hnearest⟩ := h
        rcases mem_append.mp hq with hq | hq
        · exact ⟨q, hq, hkept, htime, fun r hr => hnearest r (mem_append_left _ hr)⟩
        · rw [mem_singleton.mp hq] at hkept htime
          rcases hpass with hdropped | hnone
          · exact absurd hdropped hkept
          · rw [htime] at hnone
            cases hnone
      · intro h
        obtain ⟨q, hq, hkept, htime, hnearest⟩ := h
        refine ⟨q, mem_append_left _ hq, hkept, htime, fun r hr hqr => ?_⟩
        rcases mem_append.mp hr with hr | hr
        · exact hnearest r hr hqr
        · rw [mem_singleton.mp hr]
          exact hpass
    by_cases hdrops : dropsAfter env protectedIds (keptThrough env protectedIds none before) p.1
    · rw [keptAfter_of_drops hdrops, hpassed (.inl (hp.mpr hdrops)), ih]
    · rw [keptAfter_of_keeps hdrops]
      cases htime : env.parseRfc3339 p.1.observation.observedAt with
      | none => rw [hpassed (.inr htime), Option.none_or, ih]
      | some t =>
        rw [Option.some_or]
        constructor
        · intro heq
          cases heq
          refine ⟨p, mem_append_right _ (mem_singleton_self p), fun h => hdrops (hp.mp h),
            htime, fun q hq hlt => ?_⟩
          rcases mem_append.mp hq with hq | hq
          · exact absurd hlt (Nat.not_lt.mpr (Nat.le_of_lt (hless q hq)))
          · rw [mem_singleton.mp hq] at hlt
            exact absurd hlt (Nat.lt_irrefl _)
        · intro h
          obtain ⟨q, hq, hkept, hqtime, hnearest⟩ := h
          rcases mem_append.mp hq with hq | hq
          · rcases hnearest p (mem_append_right _ (mem_singleton_self p)) (hless q hq) with
              hdropped | hnone
            · exact absurd (hp.mp hdropped) hdrops
            · rw [htime] at hnone
              cases hnone
          · rw [mem_singleton.mp hq, htime] at hqtime
            exact hqtime

end pass

/-! ## The occurrences of a fingerprint -/

/-- The occurrences of a fingerprint that Peon reported, with their indices. -/
def occurrences (observations : List StoredObservation) (fingerprint : String) :
    List (StoredObservation × Nat) :=
  (observations.zipIdx.filter (fun p => p.1.observation.source = .peon)).filter
    (fun p => p.1.observation.fingerprint = fingerprint)

structure Occurs (observations : List StoredObservation) (fingerprint : String) (index : Nat)
    (stored : StoredObservation) : Prop where
  at_ : observations[index]? = some stored
  source : stored.observation.source = .peon
  fingerprint : stored.observation.fingerprint = fingerprint

section occurrences
variable {observations : List StoredObservation} {fingerprint : String}

theorem mem_occurrences {stored : StoredObservation} :
    (stored, index) ∈ occurrences observations fingerprint ↔
      Occurs observations fingerprint index stored := by
  rw [occurrences, mem_filter, mem_filter, mem_zipIdx_iff_getElem?]
  simp only [decide_eq_true_eq]
  exact ⟨fun h => ⟨h.1.1, h.1.2, h.2⟩, fun h => ⟨⟨h.at_, h.source⟩, h.fingerprint⟩⟩

theorem occurrences_sorted (observations : List StoredObservation) (fingerprint : String) :
    (occurrences observations fingerprint).Pairwise (fun p q => p.2 < q.2) := by
  have hzip : observations.zipIdx.Pairwise (fun p q => p.2 < q.2) := by
    refine pairwise_map.mp ?_
    rw [zipIdx_map_snd]
    exact pairwise_lt_range'
  exact (hzip.filter _).filter _

theorem length_occurrences : (occurrences observations fingerprint).length ≤ observations.length := by
  rw [← length_zipIdx (l := observations) (i := 0)]
  exact Nat.le_trans (length_filter_le _ _) (length_filter_le _ _)

end occurrences

theorem dropPass_short {env : Env} {l : List (StoredObservation × Nat)} (h : l.length < 2) :
    dropPass env protectedIds lastKeptAt l = [] := by
  match l with
  | [] => rfl
  | [p] => exact dropPass_singleton lastKeptAt p

theorem mem_sessionDropIndices {env : Env} {observations : List StoredObservation} :
    index ∈ sessionDropIndices env observations protectedIds ↔
      ∃ fingerprint, index ∈ dropPass env protectedIds none
        (occurrences observations fingerprint) := by
  have hpass : ∀ fingerprint, (if (occurrences observations fingerprint).length < 2 then []
      else dropPass env protectedIds none (occurrences observations fingerprint)) =
      dropPass env protectedIds none (occurrences observations fingerprint) := by
    intro fingerprint
    split
    · rename_i hshort
      exact (dropPass_short hshort).symm
    · rfl
  rw [sessionDropIndices]
  split
  · rename_i hshort
    refine ⟨fun h => (nomatch h), fun h => ?_⟩
    obtain ⟨fingerprint, hmem⟩ := h
    rw [dropPass_short (Nat.lt_of_le_of_lt length_occurrences hshort)] at hmem
    cases hmem
  · dsimp only
    rw [mem_flatMap]
    constructor
    · intro h
      obtain ⟨fingerprint, -, hmem⟩ := h
      exact ⟨fingerprint, hpass fingerprint ▸ hmem⟩
    · intro h
      obtain ⟨fingerprint, hmem⟩ := h
      obtain ⟨before, stored, after, heq, -, -⟩ := mem_dropPass.mp hmem
      have hstored : (stored, index) ∈ occurrences observations fingerprint := by
        rw [heq]
        exact mem_append_right _ mem_cons_self
      obtain ⟨hpeon, hfingerprint⟩ := mem_filter.mp hstored
      refine ⟨fingerprint, mem_dedup.mpr (mem_map.mpr ⟨_, hpeon, ?_⟩), ?_⟩
      · exact of_decide_eq_true hfingerprint
      · exact (hpass fingerprint).symm ▸ hmem

/-! ## The rule -/

section rule
variable (env : Env) (observations : List StoredObservation) (protectedIds : List String)

variable {fingerprint : String}

/-- The time of the nearest occurrence before `index` that is kept and has a time. -/
def NearestKept (D : Nat → Prop) (fingerprint : String) (index : Nat) (s : Timestamp) : Prop :=
  ∃ j o, j < index ∧ Occurs observations fingerprint j o ∧ ¬ D j ∧
    env.parseRfc3339 o.observation.observedAt = some s ∧
    ∀ k o', j < k → k < index → Occurs observations fingerprint k o' →
      D k ∨ env.parseRfc3339 o'.observation.observedAt = none

/-- An unprotected report of Peon that has a time, is not the latest of its fingerprint, and
comes at most the window after the nearest kept occurrence before it. -/
def Redundant (D : Nat → Prop) (index : Nat) : Prop :=
  ∃ stored observedAt keptAt, observations[index]? = some stored ∧
    stored.observation.source = .peon ∧ stored.observation.id ∉ protectedIds ∧
    env.parseRfc3339 stored.observation.observedAt = some observedAt ∧
    (∃ k o, index < k ∧ Occurs observations stored.observation.fingerprint k o) ∧
    NearestKept env observations D stored.observation.fingerprint index keptAt ∧
    0 ≤ observedAt.nanos - keptAt.nanos ∧
    observedAt.nanos - keptAt.nanos ≤ spamWindowSecs * nanosPerSec

/-- The dropped indices are exactly the redundant ones, as these depend on them. -/
def Spec (D : Nat → Prop) : Prop := ∀ index, D index ↔ Redundant env observations protectedIds D index

variable {env observations protectedIds}

variable {index : Nat} {D D' : Nat → Prop}

theorem nearestKept_congr {s : Timestamp} (h : ∀ j < index, D j ↔ D' j)
    (hnearest : NearestKept env observations D fingerprint index s) :
    NearestKept env observations D' fingerprint index s := by
  obtain ⟨j, o, hj, hoccurs, hkept, htime, hrest⟩ := hnearest
  refine ⟨j, o, hj, hoccurs, fun hd => hkept ((h j hj).mpr hd), htime, ?_⟩
  intro k o' hjk hk ho'
  exact (hrest k o' hjk hk ho').imp_left (h k hk).mp

theorem redundant_congr (h : ∀ j < index, D j ↔ D' j)
    (hr : Redundant env observations protectedIds D index) :
    Redundant env observations protectedIds D' index := by
  obtain ⟨stored, observedAt, keptAt, hstored, hsource, hid, htime, hlater, hnearest, hgap⟩ := hr
  exact ⟨stored, observedAt, keptAt, hstored, hsource, hid, htime, hlater,
    nearestKept_congr h hnearest, hgap⟩

theorem Spec.unique (h : Spec env observations protectedIds D)
    (h' : Spec env observations protectedIds D') (index : Nat) : D index ↔ D' index := by
  induction index using Nat.strongRecOn with
  | ind index ih =>
    rw [h index, h' index]
    exact ⟨redundant_congr ih, redundant_congr (fun j hj => (ih j hj).symm)⟩

/-! ## The pass follows the rule -/

variable {l before after : List (StoredObservation × Nat)}

variable {p : StoredObservation × Nat}

theorem split_sorted (hsorted : l.Pairwise (fun p q => p.2 < q.2)) (heq : l = before ++ p :: after) :
    before = l.filter (fun q => q.2 < p.2) ∧ after = l.filter (fun q => p.2 < q.2) := by
  subst heq
  obtain ⟨-, hafter, hacross⟩ := pairwise_append.mp hsorted
  have hbefore : ∀ q ∈ before, q.2 < p.2 := fun q hq => hacross q hq p mem_cons_self
  have hlater : ∀ q ∈ after, p.2 < q.2 := (pairwise_cons.mp hafter).1
  rw [filter_append, filter_append, filter_cons_of_neg (by simp),
    filter_cons_of_neg (by simp)]
  constructor
  · rw [filter_eq_self.mpr (fun q hq => decide_eq_true (hbefore q hq)),
      filter_eq_nil_iff.mpr (fun q hq => by
        simpa using Nat.le_of_lt (hlater q hq)), append_nil]
  · rw [filter_eq_self.mpr (fun q hq => decide_eq_true (hlater q hq)),
      filter_eq_nil_iff.mpr (fun q hq => by
        simpa using Nat.le_of_lt (hbefore q hq)), nil_append]

variable {stored : StoredObservation}

theorem drop_iff (heq : occurrences observations fingerprint = before ++ (stored, index) :: after) :
    index ∈ sessionDropIndices env observations protectedIds ↔ after ≠ [] ∧
      dropsAfter env protectedIds (keptThrough env protectedIds none before) stored := by
  have hoccurs : ∀ {fp before' stored' after'},
      occurrences observations fp = before' ++ (stored', index) :: after' →
        Occurs observations fp index stored' := by
    intro fp before' stored' after' heq'
    exact mem_occurrences.mp (heq' ▸ mem_append_right _ mem_cons_self)
  rw [mem_sessionDropIndices]
  constructor
  · intro h
    obtain ⟨fingerprint', hmem⟩ := h
    obtain ⟨before', stored', after', heq', hafter, hdrops⟩ := mem_dropPass.mp hmem
    have hsame : some stored' = some stored := (hoccurs heq').at_.symm.trans (hoccurs heq).at_
    cases hsame
    have hfingerprint : fingerprint' = fingerprint :=
      (hoccurs heq').fingerprint.symm.trans (hoccurs heq).fingerprint
    subst hfingerprint
    obtain ⟨hb, ha⟩ := split_sorted (occurrences_sorted _ _) heq
    obtain ⟨hb', ha'⟩ := split_sorted (occurrences_sorted _ _) heq'
    rw [ha, hb, ← ha', ← hb']
    exact ⟨hafter, hdrops⟩
  · intro h
    exact ⟨fingerprint, mem_dropPass.mpr ⟨before, stored, after, heq, h.1, h.2⟩⟩

theorem keptThrough_iff
    (heq : occurrences observations fingerprint = before ++ (stored, index) :: after)
    (s : Timestamp) : keptThrough env protectedIds none before = some s ↔
      NearestKept env observations (· ∈ sessionDropIndices env observations protectedIds)
        fingerprint index s := by
  have hsorted : before.Pairwise (fun p q => p.2 < q.2) := by
    have h := occurrences_sorted observations fingerprint
    rw [heq] at h
    exact (pairwise_append.mp h).1
  have hbefore : ∀ {o j}, (o, j) ∈ before ↔ Occurs observations fingerprint j o ∧ j < index := by
    intro o j
    rw [(split_sorted (occurrences_sorted _ _) heq).1, mem_filter, mem_occurrences]
    simp
  rw [keptThrough_eq_some (D := (· ∈ sessionDropIndices env observations protectedIds)) hsorted]
  · constructor
    · intro h
      obtain ⟨⟨o, j⟩, hmem, hkept, htime, hnearest⟩ := h
      obtain ⟨hoccurs, hj⟩ := hbefore.mp hmem
      refine ⟨j, o, hj, hoccurs, hkept, htime, fun k o' hjk hk ho' => ?_⟩
      exact hnearest (o', k) (hbefore.mpr ⟨ho', hk⟩) hjk
    · intro h
      obtain ⟨j, o, hj, hoccurs, hkept, htime, hnearest⟩ := h
      refine ⟨(o, j), hbefore.mpr ⟨hoccurs, hj⟩, hkept, htime, fun q hq hjq => ?_⟩
      obtain ⟨hq', hk⟩ := hbefore.mp hq
      exact hnearest q.2 q.1 hjq hk hq'
  · intro a o j b hsplit
    have hwhole : occurrences observations fingerprint =
        a ++ (o, j) :: (b ++ (stored, index) :: after) := by
      rw [heq, hsplit, append_assoc]
      rfl
    rw [drop_iff hwhole]
    simp

theorem sessionDropIndices_spec :
    Spec env observations protectedIds (· ∈ sessionDropIndices env observations protectedIds) := by
  intro index
  constructor
  · intro hmem
    obtain ⟨fingerprint, hpass⟩ := mem_sessionDropIndices.mp hmem
    obtain ⟨before, stored, after, heq, hafter, hid, observedAt, htime, keptAt, hkept, hgap⟩ :=
      mem_dropPass.mp hpass
    have hoccurs : Occurs observations fingerprint index stored :=
      mem_occurrences.mp (heq ▸ mem_append_right _ mem_cons_self)
    obtain ⟨⟨o, k⟩, hk⟩ := exists_mem_of_ne_nil _ hafter
    rw [(split_sorted (occurrences_sorted _ _) heq).2, mem_filter, mem_occurrences] at hk
    refine ⟨stored, observedAt, keptAt, hoccurs.at_, hoccurs.source, hid, htime, ⟨k, o, ?_, ?_⟩,
      ?_, hgap⟩
    · exact of_decide_eq_true hk.2
    · rw [hoccurs.fingerprint]
      exact hk.1
    · rw [hoccurs.fingerprint]
      exact (keptThrough_iff heq keptAt).mp hkept
  · intro h
    obtain ⟨stored, observedAt, keptAt, hstored, hsource, hid, htime, hlater, hnearest, hgap⟩ := h
    obtain ⟨k, o, hk, ho⟩ := hlater
    have hoccurs : Occurs observations stored.observation.fingerprint index stored :=
      ⟨hstored, hsource, rfl⟩
    obtain ⟨before, after, heq⟩ := append_of_mem (mem_occurrences.mpr hoccurs)
    refine (drop_iff heq).mpr ⟨?_, hid, observedAt, htime, keptAt, ?_, hgap⟩
    · refine ne_nil_of_mem (a := (o, k)) ?_
      rw [(split_sorted (occurrences_sorted _ _) heq).2, mem_filter, mem_occurrences]
      exact ⟨ho, decide_eq_true hk⟩
    · exact (keptThrough_iff heq keptAt).mpr hnearest

/-! ## A second pass drops nothing -/

theorem dropPass_subset
    (h : index ∈ dropPass env protectedIds lastKeptAt l) : index ∈ l.map Prod.snd := by
  obtain ⟨before, stored, after, rfl, -⟩ := mem_dropPass.mp h
  exact mem_map.mpr ⟨(stored, index), mem_append_right _ mem_cons_self, rfl⟩

theorem kept_ne_nil (hnodup : (l.map Prod.snd).Nodup) (hne : l ≠ []) :
    l.filter (fun p => p.2 ∉ dropPass env protectedIds lastKeptAt l) ≠ [] := by
  obtain ⟨init, p, rfl⟩ := eq_nil_or_concat' l |>.resolve_left hne
  refine ne_nil_of_mem (a := p) (mem_filter.mpr ⟨by simp, decide_eq_true ?_⟩)
  intro hmem
  obtain ⟨before, stored, after, heq, hafter, -⟩ := mem_dropPass.mp hmem
  -- its index is the last one, so nothing comes after it
  have hindices : init.map Prod.snd ++ [p.2] = before.map Prod.snd ++ p.2 :: after.map Prod.snd := by
    have h := congrArg (List.map Prod.snd) heq
    simpa using h
  rw [map_append, map_singleton] at hnodup
  obtain ⟨front, q, hlast⟩ := eq_nil_or_concat' after |>.resolve_left hafter
  rw [hlast, map_append, map_singleton, ← cons_append, ← append_assoc] at hindices
  obtain ⟨hfront, -⟩ := append_inj' hindices rfl
  refine (nodup_append.mp hnodup).2.2 p.2 ?_ p.2 (mem_singleton_self _) rfl
  rw [hfront]
  exact mem_append_right _ mem_cons_self

theorem dropPass_kept (l : List (StoredObservation × Nat)) (lastKeptAt : Option Timestamp)
    (hnodup : (l.map Prod.snd).Nodup) (l' : List (StoredObservation × Nat))
    (hl' : l'.map Prod.fst =
      (l.filter (fun p => p.2 ∉ dropPass env protectedIds lastKeptAt l)).map Prod.fst) :
    dropPass env protectedIds lastKeptAt l' = [] := by
  induction l generalizing lastKeptAt l' with
  | nil =>
    rw [map_eq_nil_iff.mp hl']
    rfl
  | cons p rest ih =>
    obtain ⟨stored, index⟩ := p
    obtain ⟨hfresh, hrestnodup⟩ := nodup_cons.mp hnodup
    by_cases hrest : rest = []
    · refine dropPass_short ?_
      have hlength := congrArg List.length hl'
      rw [length_map, length_map] at hlength
      have hle := length_filter_le
        (fun p => decide (p.2 ∉ dropPass env protectedIds lastKeptAt ((stored, index) :: rest)))
        ((stored, index) :: rest)
      rw [hrest] at hle hlength
      have hone : [(stored, index)].length = 1 := rfl
      omega
    · rcases dropPass_cons lastKeptAt stored index hrest with ⟨hdrops, heq⟩ | ⟨hkeeps, heq⟩
      · refine ih lastKeptAt hrestnodup l' ?_
        rw [hl', heq, filter_cons_of_neg (by simp)]
        refine congrArg _ (filter_congr fun q hq => ?_)
        have hne : q.2 ≠ index := fun h => hfresh (mem_map.mpr ⟨q, hq, h⟩)
        simp [hne]
      · have hindex : index ∉ dropPass env protectedIds
            ((env.parseRfc3339 stored.observation.observedAt).or lastKeptAt) rest :=
          fun h => hfresh (dropPass_subset h)
        rw [heq, filter_cons_of_pos (by simpa using hindex), map_cons] at hl'
        cases l' with
        | nil => cases hl'
        | cons p' rest' =>
          obtain ⟨stored', index'⟩ := p'
          rw [map_cons, List.cons.injEq] at hl'
          obtain ⟨hstored, hrest'⟩ := hl'
          have hstored : stored' = stored := hstored
          subst hstored
          have hne : rest' ≠ [] := by
            intro h
            rw [h] at hrest'
            exact kept_ne_nil hrestnodup hrest (map_eq_nil_iff.mp hrest'.symm)
          rcases dropPass_cons lastKeptAt stored' index' hne with ⟨hdrops, -⟩ | ⟨-, heq'⟩
          · exact absurd hdrops hkeeps
          · rw [heq']
            exact ih _ hrestnodup rest' hrest'

theorem nodup_occurrences (observations : List StoredObservation) (fingerprint : String) :
    ((occurrences observations fingerprint).map Prod.snd).Nodup :=
  pairwise_map.mpr ((occurrences_sorted observations fingerprint).imp Nat.ne_of_lt)

theorem occurrences_kept (dropped : Nat → Bool) (fingerprint : String) :
    (occurrences ((observations.zipIdx.filter (fun p => !dropped p.2)).map Prod.fst)
      fingerprint).map Prod.fst =
      ((occurrences observations fingerprint).filter (fun p => !dropped p.2)).map Prod.fst := by
  have hfst : ∀ l : List StoredObservation, (occurrences l fingerprint).map Prod.fst =
      (l.filter (fun o => o.observation.source = .peon)).filter
        (fun o => o.observation.fingerprint = fingerprint) := by
    intro l
    conv_rhs => rw [← zipIdx_map_fst 0 l, filter_map, filter_map]
    rfl
  rw [hfst, filter_map, filter_map, filter_filter, filter_filter, occurrences,
    filter_filter, filter_filter]
  refine congrArg _ (filter_congr fun p _ => ?_)
  simp only [Function.comp_apply]
  ac_rfl

theorem mem_drop_iff (hp : p ∈ occurrences observations fingerprint) :
    p.2 ∈ sessionDropIndices env observations protectedIds ↔
      p.2 ∈ dropPass env protectedIds none (occurrences observations fingerprint) := by
  obtain ⟨stored, index⟩ := p
  obtain ⟨before, after, heq⟩ := append_of_mem hp
  constructor
  · intro hmem
    obtain ⟨hafter, hdrops⟩ := (drop_iff heq).mp hmem
    exact mem_dropPass.mpr ⟨before, stored, after, heq, hafter, hdrops⟩
  · intro hmem
    exact mem_sessionDropIndices.mpr ⟨fingerprint, hmem⟩

theorem second_pass_nil :
    sessionDropIndices env ((observations.zipIdx.filter (fun p =>
      !(sessionDropIndices env observations protectedIds).contains p.2)).map Prod.fst)
      protectedIds = [] := by
  refine eq_nil_iff_forall_not_mem.mpr fun index hmem => ?_
  obtain ⟨fingerprint, hpass⟩ := mem_sessionDropIndices.mp hmem
  have hkept : (occurrences observations fingerprint).filter (fun p =>
        !(sessionDropIndices env observations protectedIds).contains p.2) =
      (occurrences observations fingerprint).filter (fun p => decide
        (p.2 ∉ dropPass env protectedIds none (occurrences observations fingerprint))) := by
    refine filter_congr fun p hp => ?_
    simp [mem_drop_iff hp]
  rw [dropPass_kept (occurrences observations fingerprint) none
    (nodup_occurrences observations fingerprint) _
    ((occurrences_kept _ fingerprint).trans (congrArg (List.map Prod.fst) hkept))] at hpass
  cases hpass

end rule

/-! ## The result -/

/-- The whole trim of a session: everything the rules drop is planned. -/
def trimAll (env : Env) (observations : List StoredObservation) (protectedIds : List String) :
    List StoredObservation :=
  (trimmed env observations (observations.map (fun o => o.observation.id)) protectedIds).2

theorem trimAll_eq (env : Env) (observations : List StoredObservation) (protectedIds : List String) :
    trimAll env observations protectedIds = (observations.zipIdx.filter (fun p =>
      !(sessionDropIndices env observations protectedIds).contains p.2)).map Prod.fst := by
  refine congrArg _ (filter_congr fun p hp => ?_)
  have hid : p.1.observation.id ∈ observations.map (fun o => o.observation.id) :=
    mem_map_of_mem (fst_mem_of_mem_zipIdx hp)
  simp [drops, hid]

/-- The trim drops exactly what the rule says, and the rule has one solution. It drops no
report of an agent, no protected one and none without a time; a dropped occurrence is neither
the first nor the latest of its fingerprint and comes at most the window after one that is
kept; and a second trim drops nothing. -/
theorem session_trim_spec (env : Env) (observations : List StoredObservation)
    (protectedIds : List String) :
    (∀ D : Nat → Prop, Spec env observations protectedIds D ↔
      ∀ index, D index ↔ index ∈ sessionDropIndices env observations protectedIds) ∧
      (∀ index ∈ sessionDropIndices env observations protectedIds,
        ∃ stored observedAt j o keptAt k o', observations[index]? = some stored ∧
          stored.observation.source = .peon ∧ stored.observation.id ∉ protectedIds ∧
          env.parseRfc3339 stored.observation.observedAt = some observedAt ∧
          j < index ∧ Occurs observations stored.observation.fingerprint j o ∧
          j ∉ sessionDropIndices env observations protectedIds ∧
          env.parseRfc3339 o.observation.observedAt = some keptAt ∧
          0 ≤ observedAt.nanos - keptAt.nanos ∧
          observedAt.nanos - keptAt.nanos ≤ spamWindowSecs * nanosPerSec ∧
          index < k ∧ Occurs observations stored.observation.fingerprint k o') ∧
      sessionDropIndices env (trimAll env observations protectedIds) protectedIds = [] := by
  refine ⟨?_, ?_, ?_⟩
  · intro D
    constructor
    · intro hD
      exact hD.unique sessionDropIndices_spec
    · intro hD
      have heq : D = (· ∈ sessionDropIndices env observations protectedIds) := by
        funext index
        exact propext (hD index)
      rw [heq]
      exact sessionDropIndices_spec
  · intro index hmem
    obtain ⟨stored, observedAt, keptAt, hstored, hsource, hid, htime, ⟨k, o', hk, ho'⟩,
      ⟨j, o, hj, ho, hkept, hkeptAt, -⟩, hlow, hhigh⟩ := (sessionDropIndices_spec index).mp hmem
    exact ⟨stored, observedAt, j, o, keptAt, k, o', hstored, hsource, hid, htime, hj, ho, hkept,
      hkeptAt, hlow, hhigh, hk, ho'⟩
  · rw [trimAll_eq]
    exact second_pass_nil

/-! ## A clock that was set back -/

def sampleTimeAfter (secs : Int) (lower : -1000000 ≤ secs) (upper : secs ≤ 1000000) : Timestamp where
  nanos := sampleTime.nanos + secs * nanosPerSec
  lower := by
    have h : sampleTime.nanos = 1767225600000000000 := rfl
    have hstep : nanosPerSec = 1000000000 := rfl
    rw [h, hstep]
    omega
  upper := by
    have h : sampleTime.nanos = 1767225600000000000 := rfl
    have hstep : nanosPerSec = 1000000000 := rfl
    rw [h, hstep]
    omega

def steppedEnv : Env :=
  { sampleEnv with
    parseRfc3339 := fun iso =>
      if iso = "2026-01-01T00:00:00+00:00" then some sampleTime
      else if iso = "2025-12-31T23:00:00+00:00" then
        some (sampleTimeAfter (-3600) (by decide) (by decide))
      else if iso = "2026-01-01T00:05:00+00:00" then
        some (sampleTimeAfter 300 (by decide) (by decide))
      else none }

def peonReport (id observedAt : String) (sequence : Nat) : StoredObservation where
  observation :=
    { id := id
      sequence := sequence
      sessionId := "s1"
      observedAt := observedAt
      kind := .obstacle
      description := "blocked"
      evidence := "failure"
      problemArea := none
      reportedImpact := .low
      source := .peon
      confidence := 1
      fingerprint := "v1:obstacle:blocked" }
  idempotencyKeyHash := id
  payloadHash := id

/-- Four reports of one fingerprint; the clock went back an hour after the first. -/
def steppedReports : List StoredObservation :=
  [peonReport "o1" "2026-01-01T00:00:00+00:00" 1, peonReport "o2" "2025-12-31T23:00:00+00:00" 2,
    peonReport "o3" "2026-01-01T00:05:00+00:00" 3, peonReport "o4" "2026-01-01T00:05:00+00:00" 4]

/-- The third report comes five minutes after the first, which is kept, and is kept all the
same: the nearest kept report is the second. -/
theorem kept_within_window_of_kept :
    sessionDropIndices steppedEnv steppedReports [] = [] ∧
      ∃ stored o o' observedAt keptAt, steppedReports[2]? = some stored ∧
        stored.observation.source = .peon ∧ stored.observation.id ∉ ([] : List String) ∧
        steppedEnv.parseRfc3339 stored.observation.observedAt = some observedAt ∧
        Occurs steppedReports stored.observation.fingerprint 0 o ∧
        steppedEnv.parseRfc3339 o.observation.observedAt = some keptAt ∧
        0 ≤ observedAt.nanos - keptAt.nanos ∧
        observedAt.nanos - keptAt.nanos ≤ spamWindowSecs * nanosPerSec ∧
        Occurs steppedReports stored.observation.fingerprint 3 o' :=
  ⟨by decide, peonReport "o3" "2026-01-01T00:05:00+00:00" 3,
    peonReport "o1" "2026-01-01T00:00:00+00:00" 1, peonReport "o4" "2026-01-01T00:05:00+00:00" 4,
    sampleTimeAfter 300 (by decide) (by decide), sampleTime, rfl, rfl, by decide, by decide,
    ⟨rfl, rfl, rfl⟩, by decide, by decide, by decide, ⟨rfl, rfl, rfl⟩⟩

end Orkworksd.Observations
