import Orkworksd.Taskmaster.ActiveCard
import Orkworksd.Taskmaster.RefreshRepeat

/- The audit and the evaluator on what a legitimate successor is.

   The evaluator links a successor to the card it succeeds; the audit calls a card a
   duplicate when some ended card of its family is not on its chain of links. In a
   run without rollups every chain leads through ended cards of one family
   (`Lineal.chain`), so the audit's walk finds exactly the cards on it
   (`supersedesChainContains_iff`). As long as no refresh drops the link of a card
   or succeeds a card that is not the head of its family (`CardAction.Linking`), every
   open card is the head of its family (`Lineal.head`) and is never called a
   duplicate (`audit_agrees`). -/
namespace Orkworksd.Taskmaster
open Lib List TextMap

variable {records : Records}

/-- The card that this one succeeds. -/
abbrev Recommendation.supersedes (r : Recommendation) : Option String :=
  r.workflowImprovement.supersedesRecommendationId

/-! ## Chains of links -/

/-- The links lead through these ids and end. -/
inductive Linked (records : Records) : Option String → List String → Prop where
  | nil : Linked records none []
  | cons {id : String} {z : Recommendation} {ids : List String} :
      records[id]? = some z → Linked records z.supersedes ids →
      Linked records (some id) (id :: ids)

namespace Linked

variable {records next : Records} {link : Option String} {ids : List String}

theorem unique {ids' : List String} (h : Linked records link ids) (h' : Linked records link ids') :
    ids = ids' := by
  induction h generalizing ids' with
  | nil =>
    cases h'
    rfl
  | cons hz _ ih =>
    cases h' with
    | cons hz' hrest =>
      rw [hz, Option.some.injEq] at hz'
      rw [ih (hz' ▸ hrest)]

variable {id : String}

theorem suffix (h : Linked records link ids) (hid : id ∈ ids) :
    ∃ before after, ids = before ++ id :: after ∧ Linked records (some id) (id :: after) := by
  induction h with
  | nil => cases hid
  | @cons first z rest hz hrest ih =>
    rcases mem_cons.mp hid with rfl | hid
    · exact ⟨[], rest, rfl, .cons hz hrest⟩
    · obtain ⟨before, after, rfl, hlinked⟩ := ih hid
      exact ⟨first :: before, after, rfl, hlinked⟩

theorem nodup (h : Linked records link ids) : ids.Nodup := by
  induction h with
  | nil => exact nodup_nil
  | @cons id z rest hz hrest ih =>
    refine nodup_cons.mpr ⟨?_, ih⟩
    intro hid
    obtain ⟨before, after, hsplit, hlinked⟩ := hrest.suffix hid
    have hsame := (Linked.cons hz hrest).unique hlinked
    have hlength := congrArg List.length (List.cons.inj hsame).2
    rw [hsplit, length_append, length_cons] at hlength
    omega

theorem stored (h : Linked records link ids) (hid : id ∈ ids) : ∃ z, records[id]? = some z := by
  obtain ⟨_, _, -, hlinked⟩ := h.suffix hid
  cases hlinked with
  | cons hz _ => exact ⟨_, hz⟩

theorem length_le (hkeyed : Keyed records) (h : Linked records link ids) :
    ids.length ≤ (listing records).length := by
  have hsub : ids ⊆ (listing records).map (·.id) := by
    intro id hid
    obtain ⟨z, hz⟩ := h.stored hid
    have hzid := hkeyed id z hz
    exact mem_map.mpr ⟨z, (mem_listing hkeyed).mpr (hzid.symm ▸ hz), hzid⟩
  have hle := (h.nodup.subperm hsub).length_le
  rwa [length_map] at hle

theorem mono (h : Linked records link ids)
    (hkeep : ∀ id ∈ ids, ∀ z, records[id]? = some z →
      ∃ z', next[id]? = some z' ∧ z'.supersedes = z.supersedes) : Linked next link ids := by
  induction h with
  | nil => exact .nil
  | @cons id z rest hz hrest ih =>
    obtain ⟨z', hz', hlink⟩ := hkeep id mem_cons_self z hz
    refine .cons hz' ?_
    rw [hlink]
    exact ih (fun i hi => hkeep i (mem_cons_of_mem _ hi))

end Linked

theorem findById_listing (hkeyed : Keyed records) (id : String) :
    findById (listing records) id = records[id]? := by
  apply Option.ext
  intro r
  rw [findById_eq_some_iff (listing_ids_nodup hkeyed), mem_listing hkeyed]
  constructor
  · rintro ⟨hr, rfl⟩
    exact hr
  · intro hr
    have hid := hkeyed id r hr
    exact ⟨hid.symm ▸ hr, hid⟩

variable {target : String}

theorem chainLoop_linked (hkeyed : Keyed records) {link : Option String} {ids : List String}
    (h : Linked records link ids) {fuel : Nat} {visited : List String}
    (hvisited : ∀ id ∈ ids, id ∉ visited) (hfuel : ids.length ≤ fuel) :
    chainLoop (listing records) target fuel visited link = some true ↔ target ∈ ids := by
  induction h generalizing fuel visited with
  | nil => simp [chainLoop]
  | @cons id z rest hz hrest ih =>
    cases fuel with
    | zero => simp at hfuel
    | succ fuel =>
      unfold chainLoop
      by_cases htarget : id = target
      · simp [htarget]
      · have hnew : visited.contains id = false := by
          simpa using hvisited id mem_cons_self
        have hfind : (findById (listing records) id).bind
            (·.workflowImprovement.supersedesRecommendationId) = z.supersedes := by
          rw [findById_listing hkeyed, hz]
          rfl
        have hne : (id == target) = false := by simpa using htarget
        rw [hne, hnew, hfind]
        simp only [Bool.false_eq_true, if_false]
        rw [ih ?_ (by simpa using hfuel)]
        · simp [Ne.symm htarget]
        · intro i hi
          rw [mem_cons, not_or]
          refine ⟨?_, hvisited i (mem_cons_of_mem _ hi)⟩
          rintro rfl
          exact (nodup_cons.mp (Linked.cons hz hrest).nodup).1 hi

theorem supersedesChainContains_iff (hkeyed : Keyed records) {c : Recommendation}
    {ids : List String} (h : Linked records c.supersedes ids) :
    supersedesChainContains (listing records) c target = true ↔ target ∈ ids := by
  have hle := h.length_le hkeyed
  have hloop : chainLoop (listing records) target ((listing records).length + 2) [] c.supersedes =
      some true ↔ target ∈ ids :=
    chainLoop_linked hkeyed h (fun _ _ => not_mem_nil) (by omega)
  have hlink : c.supersedes = c.workflowImprovement.supersedesRecommendationId := rfl
  rw [hlink, supersedesChainContains_eq, Option.some.injEq] at hloop
  exact hloop

/-! ## The invariant -/

/-- Links lead through ended cards of the same family, and every open card is the
head of its family. -/
structure Lineal (records : Records) : Prop where
  keyed : Keyed records
  plain : Plain records
  chain : ∀ (id : String) (c : Recommendation), records[id]? = some c →
    improveKey c.dedupeKey = true → ∃ ids, Linked records c.supersedes ids ∧
      ∀ i ∈ ids, ∃ z, records[i]? = some z ∧ finalStatus z.status = true ∧
        z.dedupeKey = c.dedupeKey
  head : ∀ (id : String) (c : Recommendation), records[id]? = some c →
    improveKey c.dedupeKey = true → isOpen c.status = true →
    ∀ (id' : String) (x : Recommendation), records[id']? = some x →
      x.dedupeKey = c.dedupeKey → id' ≠ id →
      finalStatus x.status = true ∧ supersedesChainContains (listing records) c id' = true

/-- Cards that have ended keep their family and their link. -/
def KeepsEnded (records next : Records) : Prop :=
  ∀ (id : String) (r : Recommendation), records[id]? = some r → finalStatus r.status = true →
    ∃ r', next[id]? = some r' ∧ finalStatus r'.status = true ∧ r'.dedupeKey = r.dedupeKey ∧
      r'.supersedes = r.supersedes

section lineal
variable {records next : Records}

theorem Lineal.empty : Lineal ∅ where
  keyed := fun id r h => by rw [get_empty] at h; cases h
  plain := fun id r h => by rw [get_empty] at h; cases h
  chain := fun id r h => by rw [get_empty] at h; cases h
  head := fun id r h => by rw [get_empty] at h; cases h

variable {id : String} {c : Recommendation}

theorem Lineal.chain_kept (h : Lineal records) (hkeep : KeepsEnded records next)
    (hc : records[id]? = some c) (hkey : improveKey c.dedupeKey = true) :
    ∃ ids, Linked records c.supersedes ids ∧ Linked next c.supersedes ids ∧
      ∀ i ∈ ids, ∃ z, next[i]? = some z ∧ finalStatus z.status = true ∧
        z.dedupeKey = c.dedupeKey := by
  obtain ⟨ids, hlinked, hended⟩ := h.chain id c hc hkey
  refine ⟨ids, hlinked, hlinked.mono ?_, ?_⟩
  · intro i hi z hz
    obtain ⟨z₀, hz₀, hfinal, -⟩ := hended i hi
    rw [hz, Option.some.injEq] at hz₀
    obtain ⟨z', hz', -, -, hlink⟩ := hkeep i z hz (hz₀ ▸ hfinal)
    exact ⟨z', hz', hlink⟩
  · intro i hi
    obtain ⟨z, hz, hfinal, hzkey⟩ := hended i hi
    obtain ⟨z', hz', hfinal', hkey', -⟩ := hkeep i z hz hfinal
    exact ⟨z', hz', hfinal', hkey'.trans hzkey⟩

theorem Lineal.contains_kept (h : Lineal records) (hkeep : KeepsEnded records next)
    (hkeyed : Keyed next) {c' : Recommendation} (hc : records[id]? = some c)
    (hkey : improveKey c.dedupeKey = true) (hlink : c'.supersedes = c.supersedes)
    (ht : supersedesChainContains (listing records) c target = true) :
    supersedesChainContains (listing next) c' target = true := by
  obtain ⟨ids, hold, hnew, -⟩ := h.chain_kept hkeep hc hkey
  rw [supersedesChainContains_iff h.keyed hold] at ht
  rw [← hlink] at hnew
  exact (supersedesChainContains_iff hkeyed hnew).mpr ht

theorem Continues.keepsEnded (h : Continues records next) : KeepsEnded records next := by
  intro id r hr hfinal
  obtain ⟨r', hr', hmoves⟩ := h.old id r hr
  have hm := hmoves hfinal
  exact ⟨r', hr', hm.final hfinal, hm.dedupeKey, hm.supersedes⟩

theorem Lineal.continues (h : Lineal records) (hcontinues : Continues records next) : Lineal next where
  keyed := hcontinues.keyed
  plain := hcontinues.plain h.plain
  chain := by
    intro id c' hc' hkey
    obtain ⟨c, hc, hmoves⟩ := hcontinues.new id c' hc' hkey
    obtain ⟨ids, -, hlinked, hended⟩ :=
      h.chain_kept hcontinues.keepsEnded hc (hmoves.dedupeKey ▸ hkey)
    have hlink : c'.supersedes = c.supersedes := hmoves.supersedes
    rw [hlink, hmoves.dedupeKey]
    exact ⟨ids, hlinked, hended⟩
  head := by
    intro id c' hc' hkey hopen id' x' hx' hsame hne
    obtain ⟨c, hc, hmoves⟩ := hcontinues.new id c' hc' hkey
    obtain ⟨x, hx, hmoves'⟩ := hcontinues.new id' x' hx' (hsame.symm ▸ hkey)
    have hckey : improveKey c.dedupeKey = true := hmoves.dedupeKey ▸ hkey
    have hxkey : x.dedupeKey = c.dedupeKey := by
      rw [← hmoves'.dedupeKey, hsame, hmoves.dedupeKey]
    obtain ⟨hfinal, hcontains⟩ := h.head id c hc hckey (hmoves.opens hopen) id' x hx hxkey hne
    exact ⟨hmoves'.final hfinal, h.contains_kept hcontinues.keepsEnded hcontinues.keyed hc hckey
      hmoves.supersedes hcontains⟩

/-! ## The refresh -/

/-- Every family that proposes rewrites a card without a link, or succeeds the head
of the family; no cleanup card is accepted and no orphan recovered. -/
def CardAction.Linking (records : Records) : CardAction → Prop
  | .refresh _ observations => ∀ f ∈ families observations,
      f.due (lineage (listing records) f.dedupeKey) = true →
      ∀ r : Recommendation, prior (listing records) f.dedupeKey = some r →
        (r.status = .proposed → r.supersedes = none) ∧
        (finalStatus r.status = true → ∀ x : Recommendation, records[x.id]? = some x →
          x.dedupeKey = f.dedupeKey → x.id ≠ r.id → finalStatus x.status = true ∧
            supersedesChainContains (listing records) r x.id = true)
  | .acceptCleanup _ _ => False
  | .recoverOrphanedExecutions _ _ _ => False
  | _ => True

def LinkingStep (env : Surroundings) (records : Records) (action : CardAction) (next : Records) :
    Prop :=
  action.Linking records ∧ CardStep env records action next

section refresh
variable {digests : Digests} {size : List WorkflowObservationEvidence → Nat}
  {context : EvaluationContext} {observations : List WorkflowObservation} {f : Family}
  {p : Recommendation}

/-- What a proposal finds of its family: nothing but the card it rewrites, or ended
cards that are all on the chain of the one it succeeds. -/
theorem Lineal.proposes_cases (h : Lineal records) (hf : f ∈ families observations)
    (hlinking : (CardAction.refresh context observations).Linking records)
    (hp : Proposes digests context records f p) :
    (p.supersedes = none ∧ ∀ x : Recommendation, records[x.id]? = some x →
      x.dedupeKey = f.dedupeKey → x.id = p.id) ∨
    (∃ r, records[r.id]? = some r ∧ r.dedupeKey = f.dedupeKey ∧ finalStatus r.status = true ∧
      p.supersedes = some r.id ∧ ∀ x : Recommendation, records[x.id]? = some x →
        x.dedupeKey = f.dedupeKey → finalStatus x.status = true ∧
          (x.id ≠ r.id → supersedesChainContains (listing records) r x.id = true)) := by
  obtain ⟨-, -, -, hcases⟩ := hp.plain_cases h.keyed h.plain
  have hdue := (evaluateFamily_due.mp hp).1
  rcases hcases with ⟨hnone, hlink⟩ | ⟨r, hr, hproposed, hid, hlink⟩ | ⟨r, hr, hfinal, hlink⟩
  · refine .inl ⟨hlink, ?_⟩
    intro x hx hkey
    exact absurd hkey (hnone x ((mem_listing h.keyed).mpr hx))
  · -- the rewritten card has no link, so its chain holds no other card of the family
    obtain ⟨hmem, hrkey⟩ := prior_mem hr
    have hstored := (mem_listing h.keyed).mp hmem
    have hnolink := (hlinking f hf hdue r hr).1 hproposed
    refine .inl ⟨hlink, ?_⟩
    intro x hx hkey
    by_contra hne
    have himprove : improveKey r.dedupeKey = true := hrkey ▸ f.improveKey_dedupeKey
    obtain ⟨-, hcontains⟩ := h.head r.id r hstored himprove (by rw [hproposed]; rfl) x.id x hx
      (hkey.trans hrkey.symm) (fun heq => hne (heq.trans hid.symm))
    have hlinked : Linked records r.supersedes [] := by
      rw [hnolink]
      exact .nil
    rw [supersedesChainContains_iff h.keyed hlinked] at hcontains
    cases hcontains
  · obtain ⟨hmem, hrkey⟩ := prior_mem hr
    have hothers := (hlinking f hf hdue r hr).2 hfinal
    refine .inr ⟨r, (mem_listing h.keyed).mp hmem, hrkey, hfinal, hlink, ?_⟩
    intro x hx hkey
    by_cases hxr : x.id = r.id
    · have hsame : x = r := by
        rw [hxr, (mem_listing h.keyed).mp hmem, Option.some.injEq] at hx
        exact hx.symm
      exact ⟨hsame ▸ hfinal, fun hne => absurd hxr hne⟩
    · obtain ⟨hxf, hcontains⟩ := hothers x hx hkey hxr
      exact ⟨hxf, fun _ => hcontains⟩

theorem Lineal.proposes_chain (h : Lineal records) (hkeep : KeepsEnded records next)
    (hf : f ∈ families observations)
    (hlinking : (CardAction.refresh context observations).Linking records)
    (hp : Proposes digests context records f p) :
    ∃ ids, Linked next p.supersedes ids ∧
      (∀ i ∈ ids, ∃ z, next[i]? = some z ∧ finalStatus z.status = true ∧
        z.dedupeKey = f.dedupeKey) ∧
      ∀ x : Recommendation, records[x.id]? = some x → x.dedupeKey = f.dedupeKey → x.id ≠ p.id →
        finalStatus x.status = true ∧ x.id ∈ ids := by
  rcases h.proposes_cases hf hlinking hp with ⟨hlink, halone⟩ | ⟨r, hr, hrkey, hfinal, hlink, hall⟩
  · rw [hlink]
    refine ⟨[], .nil, by simp, ?_⟩
    intro x hx hkey hne
    exact absurd (halone x hx hkey) hne
  · have himprove : improveKey r.dedupeKey = true := hrkey ▸ f.improveKey_dedupeKey
    obtain ⟨ids, hold, hnew, hended⟩ := h.chain_kept hkeep hr himprove
    obtain ⟨r', hr', hfinal', hkey', hlink'⟩ := hkeep r.id r hr hfinal
    rw [hlink]
    refine ⟨r.id :: ids, .cons hr' (hlink'.symm ▸ hnew), ?_, ?_⟩
    · intro i hi
      rcases mem_cons.mp hi with rfl | hi
      · exact ⟨r', hr', hfinal', hkey'.trans hrkey⟩
      · obtain ⟨z, hz, hzf, hzkey⟩ := hended i hi
        exact ⟨z, hz, hzf, hzkey.trans hrkey⟩
    · intro x hx hkey _
      obtain ⟨hxf, hcontains⟩ := hall x hx hkey
      refine ⟨hxf, ?_⟩
      by_cases hxr : x.id = r.id
      · exact hxr ▸ mem_cons_self
      · exact mem_cons_of_mem _ ((supersedesChainContains_iff h.keyed hold).mp (hcontains hxr))

theorem Lineal.refresh (h : Lineal records)
    (hlinking : (CardAction.refresh context observations).Linking records)
    (hresult : refreshResult digests size context observations records = .ok next) :
    Lineal next := by
  obtain ⟨hkeyed, hplain, hfinals, hcases⟩ := refresh_cases h.keyed h.plain hresult
  have hkeep : KeepsEnded records next := by
    intro id r hr hfinal
    exact ⟨r, hfinals id r hr hfinal, hfinal, rfl, rfl⟩
  refine ⟨hkeyed, hplain, ?_, ?_⟩
  · intro id c hc hkey
    rcases hcases id c hc with ⟨hold, -⟩ | ⟨f, hf, hp⟩
    · obtain ⟨ids, -, hnew, hended⟩ := h.chain_kept hkeep hold hkey
      exact ⟨ids, hnew, hended⟩
    · obtain ⟨ids, hnew, hended, -⟩ := h.proposes_chain hkeep hf hlinking hp
      rw [hp.dedupeKey]
      exact ⟨ids, hnew, hended⟩
  · intro id c hc hkey hopen id' x hx hsame hne
    have hid := hkeyed id c hc
    have hid' := hkeyed id' x hx
    rcases hcases id c hc with ⟨hold, hnot⟩ | ⟨f, hf, hp⟩
    · rcases hcases id' x hx with ⟨hold', -⟩ | ⟨g, hg, hq⟩
      · obtain ⟨hxf, hcontains⟩ := h.head id c hold hkey hopen id' x hold' hsame hne
        exact ⟨hxf, h.contains_kept hkeep hkeyed hold hkey rfl hcontains⟩
      · -- a proposal next to an open card: that card would be ended or be rewritten
        exfalso
        have hckey : c.dedupeKey = g.dedupeKey := hsame.symm.trans hq.dedupeKey
        obtain ⟨ids, -, -, hothers⟩ := h.proposes_chain hkeep hg hlinking hq
        obtain ⟨hcf, -⟩ := hothers c (hid.symm ▸ hold) hckey
          (fun heq => hnot g hg x hq (heq.symm.trans hid))
        cases hs : c.status <;> simp [hs, isOpen, finalStatus] at hopen hcf
    · rcases hcases id' x hx with ⟨hold', -⟩ | ⟨g, hg, hq⟩
      · obtain ⟨ids, hnew, -, hothers⟩ := h.proposes_chain hkeep hf hlinking hp
        obtain ⟨hxf, hxids⟩ := hothers x (hid'.symm ▸ hold') (hsame.trans hp.dedupeKey)
          (fun heq => hne (hid'.symm.trans (heq.trans hid)))
        exact ⟨hxf, (supersedesChainContains_iff hkeyed hnew).mpr (hid' ▸ hxids)⟩
      · exfalso
        have hfg : f = g := by
          refine families_dedupeKey_inj hf hg ?_
          rw [← hp.dedupeKey, ← hq.dedupeKey, hsame]
        refine hne (hid'.symm.trans (Eq.trans ?_ hid))
        rw [hp.eq, hq.eq, hfg]

end refresh

theorem Lineal.step {env : Surroundings} {action : CardAction} (h : Lineal records)
    (hstep : LinkingStep env records action next) : Lineal next := by
  obtain ⟨hlinking, rfl⟩ := hstep
  by_cases hrefresh : ∃ context observations, action = .refresh context observations
  · obtain ⟨context, observations, rfl⟩ := hrefresh
    unfold CardAction.perform
    cases hresult : (CardAction.refresh context observations).result env records with
    | error e => exact h
    | ok next => exact h.refresh hlinking hresult
  · push Not at hrefresh
    refine h.continues (CardAction.continues h.keyed hrefresh ?_)
    rintro live protectedIds recoveredAt rfl
    exact hlinking

/-! ## Agreement -/

/-- No card that the audit looks at is called a duplicate. -/
def AuditAgrees (chrono : Chrono) (records : Records) : Prop :=
  ∀ (now : Int) (card : Recommendation), records[card.id]? = some card → audited card = true →
    .duplicate ∉ auditCriteria chrono (listing records) now card

theorem duplicate_mem {chrono : Chrono} {recommendations : List Recommendation} {now : Int}
    {card : Recommendation}
    (h : .duplicate ∈ auditCriteria chrono recommendations now card) :
    (familyContext recommendations card).hasNewerProposedSibling = true ∨
      (familyContext recommendations card).hasUnextendedTerminalSibling = true := by
  unfold auditCriteria classify at h
  split at h
  · cases h
  · rw [mem_append, mem_append, mem_append] at h
    rcases h with ((h | h) | h) | h
    · split at h <;> simp at h
    · split at h <;> simp at h
    · split at h
      · rename_i hor
        simpa using hor
      · cases h
    · split at h <;> simp at h

theorem Lineal.agrees (h : Lineal records) (chrono : Chrono) : AuditAgrees chrono records := by
  intro now card hcard haudited hduplicate
  unfold audited at haudited
  simp only [Bool.and_eq_true, beq_iff_eq] at haudited
  obtain ⟨⟨⟨hproposed, -⟩, -⟩, hkey⟩ := haudited
  have hopen : isOpen card.status = true := by
    rw [hproposed]
    rfl
  have hhead := h.head card.id card hcard hkey hopen
  rcases duplicate_mem hduplicate with hnewer | hterminal
  · simp only [familyContext, any_eq_true, mem_filter, Bool.and_eq_true, bne_iff_ne,
      beq_iff_eq] at hnewer
    obtain ⟨sibling, ⟨hmem, hsibling⟩, ⟨hne, hsame⟩, -⟩ := hnewer
    obtain ⟨hfinal, -⟩ := hhead sibling.id sibling ((mem_listing h.keyed).mp hmem) hsame hne
    unfold audited at hsibling
    simp only [Bool.and_eq_true, beq_iff_eq] at hsibling
    rw [hsibling.1.1.1] at hfinal
    cases hfinal
  · simp only [familyContext, any_eq_true, Bool.and_eq_true, beq_iff_eq,
      Bool.not_eq_eq_eq_not, Bool.not_true] at hterminal
    obtain ⟨sibling, hmem, ⟨hsame, hfinal⟩, hcontains⟩ := hterminal
    have hne : sibling.id ≠ card.id := by
      intro heq
      have hstored := (mem_listing h.keyed).mp hmem
      rw [heq, hcard, Option.some.injEq] at hstored
      rw [← hstored, hproposed] at hfinal
      cases hfinal
    obtain ⟨-, htrue⟩ := hhead sibling.id sibling ((mem_listing h.keyed).mp hmem) hsame hne
    rw [htrue] at hcontains
    cases hcontains

/-- In every run from an empty store whose refreshes keep the links, no proposed card
of an `improve_workflow` family is called a duplicate. -/
theorem audit_agrees (env : Surroundings) (actions : List CardAction) (records : Records)
    (hrun : Run (LinkingStep env) ∅ actions records) : AuditAgrees env.chrono records :=
  (hrun.invariant Lineal Lineal.empty (fun h hstep => h.step hstep)).agrees env.chrono

end lineal

namespace Sample

/-- A card is proposed and dismissed. -/
def dismissedRun : List CardAction :=
  [.dismiss firstId "2026-01-01T00:00:01.5+00:00" none,
   .refresh at1 [observation "o1" 1, observation "o2" 2]]

theorem listing_dismissedRun : (listing (after dismissedRun)).map (·.status) = [.dismissed] := by
  decide +kernel

theorem dismissedRun_linking : Run (LinkingStep surroundings) ∅ dismissedRun (after dismissedRun) := by
  refine .next (.next .start ⟨?_, rfl⟩) ⟨trivial, rfl⟩
  intro f _ _ r hr
  have hmem := (prior_mem hr).1
  have hempty : listing (∅ : Records) = [] := rfl
  rw [hempty] at hmem
  cases hmem

/-- A refresh with new observations proposes its successor. -/
def successorRun : List CardAction := .refresh at2 laterObservations :: dismissedRun

theorem successorRun_linking : Run (LinkingStep surroundings) ∅ successorRun (after successorRun) := by
  have hlineal := dismissedRun_linking.invariant Lineal Lineal.empty (fun h hstep => h.step hstep)
  have hone : ∀ x y : Recommendation, x ∈ listing (after dismissedRun) →
      y ∈ listing (after dismissedRun) → x = y ∧ x.status = .dismissed := by
    intro x y hx hy
    obtain ⟨card, rest, hlisting, hstatus, hrest⟩ := map_eq_cons_iff.mp listing_dismissedRun
    rw [map_eq_nil_iff.mp hrest] at hlisting
    rw [hlisting, mem_singleton] at hx hy
    rw [hx, hy]
    exact ⟨rfl, hstatus⟩
  refine .next dismissedRun_linking ⟨?_, rfl⟩
  intro f _ _ r hr
  have hmem := (prior_mem hr).1
  constructor
  · intro hproposed
    rw [(hone r r hmem hmem).2] at hproposed
    cases hproposed
  · intro _ x hx _ hne
    have hsame := (hone x r ((mem_listing hlineal.keyed).mpr hx) hmem).1
    exact absurd (congrArg Recommendation.id hsame) hne

end Sample

open Sample

/-- The successor of a dismissed card is no duplicate when it is first stored. -/
theorem new_successor_agrees :
    ((after successorRun)[successorId]?).map (fun r =>
      (r.status, r.supersedes)) = some (.proposed, some firstId) ∧
    AuditAgrees chrono (after successorRun) :=
  ⟨by decide +kernel, audit_agrees surroundings successorRun _
    successorRun_linking⟩

/-- The evaluator proposes the card as the successor of the dismissed one. After one
more refresh with the same observations it has lost its link; it is still the only
proposed card of its family, and the audit calls it a duplicate. -/
theorem refreshed_successor_duplicate :
    ((after successorRun)[successorId]?).map (fun card =>
      (card.status, card.supersedes)) = some (.proposed, some firstId) ∧
    ∃ records card, Run (CardStep surroundings) ∅
        (.refresh at3 laterObservations :: successorRun) records ∧
      records[successorId]? = some card ∧ audited card = true ∧
      ((listing records).filter audited).length = 1 ∧
      .duplicate ∈ auditCriteria chrono (listing records) 1767225604000000000 card := by
  have hcard : ((after (.refresh at3 laterObservations ::
      successorRun))[successorId]?).map (fun card =>
        (audited card, decide (.duplicate ∈ auditCriteria chrono (listing (after
          (.refresh at3 laterObservations :: successorRun)))
          1767225604000000000 card))) = some (true, true) := by decide +kernel
  have honly : ((listing (after (.refresh at3 laterObservations ::
      successorRun))).filter audited).length = 1 := by decide +kernel
  obtain ⟨card, hget, heq⟩ := Option.map_eq_some_iff.mp hcard
  rw [Prod.mk.injEq, decide_eq_true_eq] at heq
  exact ⟨by decide +kernel, _, card, run_after _, hget, heq.1, honly, heq.2⟩

end Orkworksd.Taskmaster
