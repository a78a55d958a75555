import Orkworksd.Observations.Journal

/- What the retention rules do to a session: `append_or_rewrite` and
   `apply_trim_session`, stated once.

   The eviction loops drop a prefix of the observations and leave a tombstone for each
   one whose key may still be repeated (`evicted_spec`). A trim drops a subsequence, in
   place (`trimmed_spec`). The cap keeps the newest tombstones (`capTombstones_spec`).
   `appendOrRewrite_cases` is everything a record can do to its session. -/
namespace Orkworksd.Observations
open List

open Taskmaster (Bytes)

section Sorting

variable {α : Type} {key : α → Nat} {items : List α}

theorem sortByKey_perm : (sortByKey key items).Perm items := perm_insertionSort _ _

theorem mem_sortByKey {a : α} : a ∈ sortByKey key items ↔ a ∈ items := sortByKey_perm.mem_iff

theorem length_sortByKey : (sortByKey key items).length = items.length := sortByKey_perm.length_eq

theorem pairwise_sortByKey : (sortByKey key items).Pairwise (fun a b => key a ≤ key b) := by
  have htotal : Std.Total (fun a b : α => key a ≤ key b) := ⟨fun a b => Nat.le_total _ _⟩
  have htrans : IsTrans α (fun a b => key a ≤ key b) := ⟨fun a b c => Nat.le_trans⟩
  exact pairwise_insertionSort _ _

end Sorting

/-! ## Tombstones -/

/-- The observation's key may still be repeated. -/
def recent (env : Env) (now : Timestamp) (stored : StoredObservation) : Bool :=
  withinWindow env now stored.observation.observedAt

variable (env : Env) (now : Timestamp)

variable (tombs : List Tombstone)

theorem foldl_maybeTombstone (gone : List StoredObservation) :
    gone.foldl (maybeTombstone env now) tombs
      = tombs ++ (gone.filter (recent env now)).map entomb := by
  induction gone generalizing tombs with
  | nil => simp
  | cons o gone ih =>
    have hstep : maybeTombstone env now tombs o
        = if recent env now o then tombs ++ [entomb o] else tombs := rfl
    rw [foldl_cons, ih, filter_cons, hstep]
    by_cases hrecent : recent env now o = true
    · rw [if_pos hrecent, if_pos hrecent, map_cons, append_assoc]
      rfl
    · rw [if_neg hrecent, if_neg hrecent]

theorem capTombstones_spec : (∀ t ∈ capTombstones tombs, t ∈ tombs)
      ∧ (tombs.length ≤ maxTombstones → capTombstones tombs = sortByKey Tombstone.sequence tombs)
      ∧ (capTombstones tombs).Pairwise (fun a b => a.sequence ≤ b.sequence)
      ∧ (capTombstones tombs).length ≤ maxTombstones
      ∧ (capTombstones tombs).length ≤ tombs.length := by
  rw [capTombstones]
  split
  · rename_i hmany
    refine ⟨?_, fun hle => absurd hle (by omega), pairwise_sortByKey, ?_, ?_⟩
    · intro t ht
      exact mem_sortByKey.mp (mem_of_mem_drop (mem_sortByKey.mp ht))
    · rw [length_sortByKey, length_drop, length_sortByKey]
      omega
    · rw [length_sortByKey, length_drop, length_sortByKey]
      omega
  · rename_i hfew
    refine ⟨fun t ht => mem_sortByKey.mp ht, fun _ => rfl, pairwise_sortByKey, ?_, ?_⟩
    · rw [length_sortByKey]
      omega
    · rw [length_sortByKey]

/-! ## Eviction -/

theorem evictWhile_spec (exceeds : List Tombstone → List StoredObservation → Bool) (now : Timestamp)
    (tombs : List Tombstone) (obs : List StoredObservation) :
    ∃ gone, obs = gone ++ (evictWhile env exceeds now tombs obs).2
      ∧ (evictWhile env exceeds now tombs obs).1 = gone.foldl (maybeTombstone env now) tombs
      ∧ ((evictWhile env exceeds now tombs obs).2 ≠ [] →
          exceeds (evictWhile env exceeds now tombs obs).1
            (evictWhile env exceeds now tombs obs).2 = false) := by
  induction obs generalizing tombs with
  | nil => exact ⟨[], rfl, rfl, fun h => absurd rfl h⟩
  | cons o obs ih =>
    rw [evictWhile]
    split
    · obtain ⟨gone, hobs, htombs, hfits⟩ := ih (maybeTombstone env now tombs o)
      exact ⟨o :: gone, congrArg (o :: ·) hobs, htombs, hfits⟩
    · rename_i hno
      exact ⟨[], rfl, rfl, fun _ => Bool.not_eq_true _ ▸ hno⟩

variable (cache : SessionCache)

/-- What both loops leave: a suffix, the tombstones of the rest, and a journal within
the bounds unless nothing is left. -/
theorem evicted_spec (stored : StoredObservation) :
    ∃ gone, cache.observations ++ [stored] = gone ++ (evicted env now cache stored).2
      ∧ (evicted env now cache stored).1 = unexpired env now cache.tombstones
          ++ (gone.filter (recent env now)).map entomb
      ∧ (evicted env now cache stored).2.length ≤ maxSegmentObservations
      ∧ ((evicted env now cache stored).2 ≠ [] →
          segmentSize env (evicted env now cache stored).1 (evicted env now cache stored).2
            ≤ maxSegmentBytes) := by
  obtain ⟨gone, hobs, htombs, hcount⟩ := evictWhile_spec env tooMany now
    (unexpired env now cache.tombstones) (cache.observations ++ [stored])
  obtain ⟨gone', hobs', htombs', hsize⟩ := evictWhile_spec env (tooLarge env) now
    (evictWhile env tooMany now (unexpired env now cache.tombstones)
      (cache.observations ++ [stored])).1
    (evictWhile env tooMany now (unexpired env now cache.tombstones)
      (cache.observations ++ [stored])).2
  have hle : (evictWhile env tooMany now (unexpired env now cache.tombstones)
      (cache.observations ++ [stored])).2.length ≤ maxSegmentObservations := by
    by_cases hnil : (evictWhile env tooMany now (unexpired env now cache.tombstones)
        (cache.observations ++ [stored])).2 = []
    · rw [hnil]
      exact Nat.zero_le _
    · have := hcount hnil
      rw [tooMany, decide_eq_false_iff_not] at this
      omega
  refine ⟨gone ++ gone', ?_, ?_, ?_, ?_⟩
  · rw [append_assoc]
    exact hobs.trans (congrArg (gone ++ ·) hobs')
  · show (evictWhile env (tooLarge env) now _ _).1 = _
    rw [htombs', htombs, foldl_maybeTombstone, foldl_maybeTombstone, filter_append,
      map_append, append_assoc]
  · have hlen := congrArg List.length hobs'
    rw [length_append] at hlen
    show (evictWhile env (tooLarge env) now _ _).2.length ≤ _
    omega
  · intro hne
    have := hsize hne
    rw [tooLarge, decide_eq_false_iff_not] at this
    exact Nat.le_of_not_lt this

variable {stored : StoredObservation}

theorem mem_rewritten {env : Env} {now : Timestamp} {cache : SessionCache} {o : StoredObservation}
    (h : o ∈ (rewritten env now cache stored).observations) :
    o ∈ cache.observations ∨ o = stored := by
  obtain ⟨gone, hobs, -⟩ := evicted_spec env now cache stored
  have hmem : o ∈ cache.observations ++ [stored] := by
    rw [hobs]
    exact mem_append_right _ (mem_sortByKey.mp h)
  rcases mem_append.mp hmem with h | h
  · exact .inl h
  · exact .inr (mem_singleton.mp h)

theorem mem_rewritten_tombstones {env : Env} {now : Timestamp} {cache : SessionCache}
    {t : Tombstone} (h : t ∈ (rewritten env now cache stored).tombstones) :
    t ∈ cache.tombstones ∨ ∃ o, (o ∈ cache.observations ∨ o = stored) ∧ t = entomb o := by
  obtain ⟨gone, hobs, htombs, -⟩ := evicted_spec env now cache stored
  have hmem := (capTombstones_spec _).1 t h
  rw [htombs] at hmem
  rcases mem_append.mp hmem with h | h
  · exact .inl (mem_of_mem_filter h)
  · obtain ⟨o, ho, rfl⟩ := mem_map.mp h
    have : o ∈ cache.observations ++ [stored] := by
      rw [hobs]
      exact mem_append_left _ (mem_of_mem_filter ho)
    refine .inr ⟨o, ?_, rfl⟩
    rcases mem_append.mp this with h | h
    · exact .inl h
    · exact .inr (mem_singleton.mp h)

/-! ## Trim -/

theorem trimmed_spec (observations : List StoredObservation) (dropIds protectedIds : List String) :
    (trimmed env observations dropIds protectedIds).1.Sublist observations
      ∧ (trimmed env observations dropIds protectedIds).2.Sublist observations
      ∧ ((trimmed env observations dropIds protectedIds).1
          ++ (trimmed env observations dropIds protectedIds).2).Perm observations := by
  have hzip : observations.zipIdx.map Prod.fst = observations := zipIdx_map_fst _ _
  refine ⟨?_, ?_, ?_⟩
  · have := (filter_sublist (p := drops env observations dropIds protectedIds)
      (l := observations.zipIdx)).map Prod.fst
    rwa [hzip] at this
  · have := (filter_sublist (p := fun p => !drops env observations dropIds protectedIds p)
      (l := observations.zipIdx)).map Prod.fst
    rwa [hzip] at this
  · have := (filter_append_perm (drops env observations dropIds protectedIds)
      observations.zipIdx).map Prod.fst
    rwa [hzip, map_append] at this

variable (dropIds protectedIds : List String)

theorem trimmedCache_tombstones : (trimmedCache env now cache dropIds protectedIds).tombstones
      = capTombstones (unexpired env now cache.tombstones
          ++ ((trimmed env cache.observations dropIds protectedIds).1.filter (recent env now)).map
            entomb) := by
  show capTombstones (List.foldl _ _ _) = _
  rw [foldl_maybeTombstone]

theorem mem_trimmedCache : (∀ o ∈ (trimmedCache env now cache dropIds protectedIds).observations,
        o ∈ cache.observations)
      ∧ ∀ t ∈ (trimmedCache env now cache dropIds protectedIds).tombstones,
        t ∈ cache.tombstones ∨ ∃ o ∈ cache.observations, t = entomb o := by
  obtain ⟨hdropped, hkept, -⟩ := trimmed_spec env cache.observations dropIds protectedIds
  refine ⟨fun o ho => hkept.subset ho, ?_⟩
  intro t ht
  rw [trimmedCache_tombstones] at ht
  rcases mem_append.mp ((capTombstones_spec _).1 t ht) with h | h
  · exact .inl (mem_of_mem_filter h)
  · obtain ⟨o, ho, rfl⟩ := mem_map.mp h
    exact .inr ⟨o, hdropped.subset (mem_of_mem_filter ho), rfl⟩

end Orkworksd.Observations
