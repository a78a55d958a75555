import Orkworksd.Observations.Journal

/- What the payload hash tells apart (`hash_payload`).

   The fields of a report are joined by NUL characters, and a description or an evidence may
   hold such characters itself, so one text may be read in several ways. `OneReading` is the
   condition under which it is not: no other cut of the joined text gives a description and
   an evidence that pass the validation. A problem area is free of NUL characters but may be
   one of the words for an impact.

   Main result: `payload_told_apart_iff`. -/
namespace Orkworksd.Observations
open List

open Taskmaster (Bytes utf8 ObservationKind Impact)
open Lib.JsonText (encode encode_append encode_injective encode_singleton)

variable {problemArea : Option String}

/-- What a payload hash is about. -/
structure Payload where
  kind : ObservationKind
  description : String
  evidence : String
  impact : Impact
  problemArea : Option String
  deriving DecidableEq

def Payload.text (p : Payload) : Bytes :=
  payloadText p.kind p.description p.evidence p.impact p.problemArea

/-- The payload of a call that has passed the validation. -/
def RecordCall.payload (call : RecordCall) (sub : Submission) : Payload where
  kind := call.candidate.kind
  description := call.candidate.description
  evidence := call.candidate.evidence
  impact := call.candidate.reportedImpact
  problemArea := sub.problemArea

/-- Some candidate with this payload passes the validation. -/
def Admissible (env : Env) (p : Payload) : Prop :=
  ∃ origin candidate result, validateCandidate env origin candidate = .ok result ∧
    canonicalArea env candidate.problemArea = .ok p.problemArea ∧ candidate.kind = p.kind ∧
    candidate.description = p.description ∧ candidate.evidence = p.evidence ∧
    candidate.reportedImpact = p.impact

/-- What Unicode says of lower case and NFKC: a lower-case letter of the ASCII range is its
own lower case, an ASCII text is its own normal form, and NUL comes from NUL only. -/
structure Env.Unicode (env : Env) : Prop where
  lower : ∀ c : Char, c.isLower = true → env.toLowercase c = [c]
  ascii : ∀ text : List Char, (∀ c ∈ text, c.toNat < 0x80) → env.nfkc text = text
  lower_nul : ∀ c : Char, c ≠ '\x00' → '\x00' ∉ env.toLowercase c
  nfkc_nul : ∀ text : List Char, '\x00' ∉ text → '\x00' ∉ env.nfkc text

/-! ## Validated fields -/

/-- The length and the content that a description or an evidence needs. -/
def Fits (limit : Nat) (text : List Char) : Prop :=
  (Lib.Text.trim text).isEmpty = false ∧ text.length ≤ limit

variable {candidate : ObservationCandidate}

variable {env : Env}

theorem validateCandidate_agent (hd : Fits maxDescriptionChars candidate.description.toList)
    (he : Fits maxEvidenceChars candidate.evidence.toList)
    (ha : canonicalArea env candidate.problemArea = .ok problemArea) :
    validateCandidate env .agent candidate = .ok (.agent, agentConfidence) := by
  have hdlen := Nat.not_lt.mpr hd.2
  have helen := Nat.not_lt.mpr he.2
  simp [validateCandidate, hd.1, he.1, hdlen, helen, sourceAndConfidence, ha]

theorem fits_of_validate {origin : ObservationOrigin} {result : Taskmaster.ObservationSource × ℚ}
    (h : validateCandidate env origin candidate = .ok result) :
    Fits maxDescriptionChars candidate.description.toList ∧
      Fits maxEvidenceChars candidate.evidence.toList := by
  unfold validateCandidate at h
  split at h
  · cases h
  · rename_i hd
    split at h
    · cases h
    · rename_i hdlen
      split at h
      · cases h
      · rename_i he
        split at h
        · cases h
        · rename_i helen
          exact ⟨⟨by simpa using hd, Nat.le_of_not_lt hdlen⟩, by simpa using he,
            Nat.le_of_not_lt helen⟩

theorem admissible_iff {p : Payload} :
    Admissible env p ↔ Fits maxDescriptionChars p.description.toList ∧
      Fits maxEvidenceChars p.evidence.toList ∧
      ∃ area, canonicalArea env area = .ok p.problemArea := by
  constructor
  · intro h
    obtain ⟨origin, candidate, result, hvalid, harea, -, hd, he, -⟩ := h
    obtain ⟨hdfits, hefits⟩ := fits_of_validate hvalid
    exact ⟨hd ▸ hdfits, he ▸ hefits, candidate.problemArea, harea⟩
  · intro h
    obtain ⟨hd, he, area, harea⟩ := h
    exact ⟨.agent, ⟨p.kind, p.description, p.evidence, area, p.impact, none⟩, _,
      validateCandidate_agent hd he harea, harea, rfl, rfl, rfl, rfl⟩

/-! ## The joined text -/

theorem utf8_eq_encode (s : String) : utf8 s = encode s.toList := by
  calc utf8 s = s.toList.utf8Encode.data.toList := by rw [String.utf8Encode_toList]; rfl
    _ = encode s.toList := by rw [List.utf8Encode, toList_data_toByteArray, encode]

/-- A problem area with its separator, or nothing. -/
def areaSuffix (problemArea : Option String) : List Char :=
  (problemArea.map (fun area => '\x00' :: area.toList)).getD []

def Payload.body (p : Payload) : List Char := p.description.toList ++ '\x00' :: p.evidence.toList

/-- The text of a payload as characters. -/
def Payload.joined (p : Payload) : List Char :=
  (kindText p.kind).toList ++ '\x00' :: (p.body ++
    '\x00' :: ((impactText p.impact).toList ++ areaSuffix p.problemArea))

theorem text_eq (p : Payload) : p.text = encode p.joined := by
  have hcons : ∀ chars : List Char, encode ('\x00' :: chars) = [0] ++ encode chars := fun _ => rfl
  obtain ⟨kind, description, evidence, impact, problemArea⟩ := p
  cases problemArea with
  | none =>
    simp only [Payload.text, payloadText, Payload.joined, Payload.body, areaSuffix, encode_append,
      hcons, utf8_eq_encode, append_assoc, Option.map_none, Option.getD_none]
    rfl
  | some area =>
    simp only [Payload.text, payloadText, Payload.joined, Payload.body, areaSuffix, encode_append,
      hcons, utf8_eq_encode, append_assoc, Option.map_some, Option.getD_some]

theorem kind_nul (kind : ObservationKind) : '\x00' ∉ (kindText kind).toList := by
  cases kind <;> decide

variable (impact : Impact)

theorem impact_nul : '\x00' ∉ (impactText impact).toList := by
  cases impact <;> decide

variable {text : List Char}

theorem collapse_nul (henv : env.Unicode) (h : '\x00' ∉ text) (last : Bool) :
    '\x00' ∉ collapse env last text := by
  induction text generalizing last with
  | nil => exact h
  | cons c text ih =>
    have hc : c ≠ '\x00' := fun heq => h (heq ▸ mem_cons_self)
    have htext : '\x00' ∉ text := fun hmem => h (mem_cons_of_mem c hmem)
    rw [collapse]
    split
    · split
      · exact ih htext true
      · intro hmem
        rcases mem_cons.mp hmem with heq | hmem
        · exact absurd heq (by decide)
        · exact ih htext true hmem
    · intro hmem
      rcases mem_append.mp hmem with hmem | hmem
      · exact henv.lower_nul c hc hmem
      · exact ih htext false hmem

theorem trim_subset {c : Char} (h : c ∈ Lib.Text.trim text) : c ∈ text := by
  rw [Lib.Text.trim, mem_reverse] at h
  exact (dropWhile_sublist _).subset (mem_reverse.mp ((dropWhile_sublist _).subset h))

theorem canonicalArea_nul (henv : env.Unicode) {area : Option String} {canonical : String}
    (h : canonicalArea env area = .ok (some canonical)) : '\x00' ∉ canonical.toList := by
  cases area with
  | none => cases h
  | some problemArea =>
    have hok : canonicalizeProblemArea env problemArea = .ok canonical := by
      simp only [canonicalArea] at h
      split at h
      · rename_i canonical' hcanonical
        cases h
        exact hcanonical
      · cases h
    unfold canonicalizeProblemArea at hok
    split at hok
    · cases hok
    · rename_i hcontrol
      dsimp only at hok
      split at hok
      · cases hok
      · cases hok
        have hfree : '\x00' ∉ problemArea.toList := by
          intro hmem
          exact hcontrol (any_eq_true.mpr ⟨_, hmem, by decide⟩)
        have hlower : '\x00' ∉ (env.nfkc problemArea.toList).flatMap env.toLowercase := by
          intro hmem
          obtain ⟨c, hc, hnul⟩ := mem_flatMap.mp hmem
          refine henv.lower_nul c ?_ hnul
          intro heq
          exact henv.nfkc_nul _ hfree (heq ▸ hc)
        have hcollapse := collapse_nul henv (fun hmem => hlower (trim_subset hmem)) false
        rw [String.toList_ofList]
        exact fun hmem => hcollapse (mem_of_mem_take hmem)

theorem collapse_lower (henv : env.Unicode)
    (h : ∀ c ∈ text, c.isLower = true ∧ Lib.Text.isWhitespace c = false) (last : Bool) :
    collapse env last text = text := by
  induction text generalizing last with
  | nil => rfl
  | cons c text ih =>
    obtain ⟨hlower, hspace⟩ := h c mem_cons_self
    rw [collapse, if_neg (by rw [hspace]; decide), henv.lower c hlower,
      ih (fun d hd => h d (mem_cons_of_mem _ hd)) false]
    rfl

theorem flatMap_lower (henv : env.Unicode) (h : ∀ c ∈ text, c.isLower = true) :
    text.flatMap env.toLowercase = text := by
  induction text with
  | nil => rfl
  | cons c text ih =>
    rw [flatMap_cons, henv.lower c (h c mem_cons_self), ih (fun d hd => h d (mem_cons_of_mem _ hd))]
    rfl

theorem impact_word : (∀ c ∈ (impactText impact).toList, c.toNat < 0x80 ∧ c.isLower = true ∧
      Lib.Text.isWhitespace c = false) ∧
      (impactText impact).toList.any Lib.Text.isControl = false ∧
      Lib.Text.trim (impactText impact).toList = (impactText impact).toList ∧
      (impactText impact).toList.isEmpty = false ∧
      (impactText impact).toList.take maxProblemAreaChars = (impactText impact).toList := by
  have hletters : (impactText impact).toList.all (fun c => decide (c.toNat < 0x80 ∧
      c.isLower = true ∧ Lib.Text.isWhitespace c = false)) = true := by
    cases impact <;> decide
  have hletter : ∀ c ∈ (impactText impact).toList, c.toNat < 0x80 ∧ c.isLower = true ∧
      Lib.Text.isWhitespace c = false := by
    intro c hc
    exact of_decide_eq_true (all_eq_true.mp hletters c hc)
  refine ⟨hletter, ?_⟩
  cases impact <;> decide

theorem canonicalArea_impact (henv : env.Unicode) (impact : Impact) :
    canonicalArea env (some (impactText impact)) = .ok (some (impactText impact)) := by
  obtain ⟨hchars, hcontrol, htrim, hempty, htake⟩ := impact_word impact
  have hcanonical : canonicalizeProblemArea env (impactText impact) = .ok (impactText impact) := by
    rw [canonicalizeProblemArea, if_neg (by rw [hcontrol]; decide)]
    simp only [normalizeDescription, henv.ascii _ (fun c hc => (hchars c hc).1),
      flatMap_lower henv (fun c hc => (hchars c hc).2.1), htrim,
      collapse_lower henv (fun c hc => (hchars c hc).2), hempty, htake, String.ofList_toList]
    rfl
  rw [canonicalArea, hcanonical]

/-! ## Readings -/

/-- The text is a description and an evidence that pass the validation. -/
def Cut (text description evidence : List Char) : Prop :=
  text = description ++ '\x00' :: evidence ∧ Fits maxDescriptionChars description ∧
    Fits maxEvidenceChars evidence

/-- The joined text of the payload is read in its own way only: the description and the
evidence are not cut elsewhere, an area that is a word for an impact does not serve as the
impact with the impact left to the evidence, and the end of the evidence does not serve as
the impact with the impact as the area. -/
structure OneReading (p : Payload) : Prop where
  own : ∀ description evidence, Cut p.body description evidence →
    description = p.description.toList
  area : ∀ impact, p.problemArea = some (impactText impact) → ∀ description evidence,
    ¬ Cut (p.body ++ '\x00' :: (impactText p.impact).toList) description evidence
  impact : p.problemArea = none → ∀ impact rest, p.body = rest ++ '\x00' :: (impactText impact).toList →
    ∀ description evidence, ¬ Cut rest description evidence

/-- The payload is told apart from every other: by what is hashed, and, as far as SHA-256 has
no collision between the two texts, by the conflict that is reported. -/
structure ToldApart (env : Env) (p : Payload) : Prop where
  preimage : ∀ p', Admissible env p' → p'.text = p.text → p' = p
  conflict : ∀ (call : RecordCall) (fates : RecordFates) (world : World) (sub : Submission)
    (entry : IdempotencyEntry), submission env call = .ok sub → world.inner.degraded = false →
    world.inner.idempotency call.sessionId sub.keyHash = some entry →
    entry.payloadHash = env.sha256 p.text → withinWindow env call.now entry.acceptedAt = true →
    (env.sha256 p.text = env.sha256 (call.payload sub).text → p.text = (call.payload sub).text) →
    call.payload sub ≠ p → (recordObservation env call fates world).1 = .error .idempotencyConflict

section readings
variable {env : Env} (henv : env.Unicode) {p p' : Payload}

theorem kindText_toList_injective {k k' : ObservationKind}
    (h : (kindText k).toList = (kindText k').toList) : k = k' :=
  kindText_injective (String.toList_injective h)

theorem impactText_toList_injective {i i' : Impact}
    (h : (impactText i).toList = (impactText i').toList) : i = i' :=
  impactText_injective (String.toList_injective h)

theorem joined_eq_iff : p'.joined = p.joined ↔ p'.kind = p.kind ∧
    p'.body ++ '\x00' :: ((impactText p'.impact).toList ++ areaSuffix p'.problemArea) =
      p.body ++ '\x00' :: ((impactText p.impact).toList ++ areaSuffix p.problemArea) := by
  constructor
  · intro h
    obtain ⟨hkind, hrest⟩ := Lib.Text.cut_first (kind_nul _) (kind_nul _) h
    exact ⟨kindText_toList_injective hkind, hrest⟩
  · intro h
    rw [Payload.joined, Payload.joined, h.1, h.2]

theorem Admissible.cut (h : Admissible env p) :
    Cut p.body p.description.toList p.evidence.toList := by
  obtain ⟨hd, he, -⟩ := admissible_iff.mp h
  exact ⟨rfl, hd, he⟩

theorem admissible_of_cut {description evidence : List Char} (h : Cut text description evidence)
    (kind : ObservationKind) (impact : Impact)
    (harea : ∃ area, canonicalArea env area = .ok problemArea) :
    Admissible env ⟨kind, String.ofList description, String.ofList evidence, impact, problemArea⟩ ∧
      (⟨kind, String.ofList description, String.ofList evidence, impact, problemArea⟩ :
        Payload).body = text := by
  constructor
  · refine admissible_iff.mpr ⟨?_, ?_, harea⟩
    · rw [String.toList_ofList]
      exact h.2.1
    · rw [String.toList_ofList]
      exact h.2.2
  · rw [Payload.body, String.toList_ofList, String.toList_ofList]
    exact h.1.symm

/-- The ways in which two texts of the same kind agree: all parts are the same, or one has
the impact where the other has the area. -/
theorem rest_cases (hp : ∀ a, p.problemArea = some a → '\x00' ∉ a.toList)
    (hp' : ∀ a, p'.problemArea = some a → '\x00' ∉ a.toList)
    (h : p'.body ++ '\x00' :: ((impactText p'.impact).toList ++ areaSuffix p'.problemArea) =
      p.body ++ '\x00' :: ((impactText p.impact).toList ++ areaSuffix p.problemArea)) :
    (p'.body = p.body ∧ p'.impact = p.impact ∧ p'.problemArea = p.problemArea) ∨
      (p.problemArea = some (impactText p'.impact) ∧
        p'.body = p.body ++ '\x00' :: (impactText p.impact).toList) ∨
      (p.problemArea = none ∧ p.body = p'.body ++ '\x00' :: (impactText p'.impact).toList) := by
  have hsuffix : ∀ a : String, areaSuffix (some a) = '\x00' :: a.toList := fun _ => rfl
  have hnone : areaSuffix none = [] := rfl
  cases harea : p.problemArea with
  | none =>
    cases harea' : p'.problemArea with
    | none =>
      rw [harea, harea', hnone, append_nil, append_nil] at h
      obtain ⟨hbody, himpact⟩ := Lib.Text.cut_last (impact_nul _) (impact_nul _) h
      exact .inl ⟨hbody, impactText_toList_injective himpact, rfl⟩
    | some a' =>
      rw [harea, harea', hnone, hsuffix, append_nil, ← cons_append, ← append_assoc] at h
      obtain ⟨hbody, -⟩ := Lib.Text.cut_last (hp' a' harea') (impact_nul _) h
      exact .inr (.inr ⟨rfl, hbody.symm⟩)
  | some a =>
    cases harea' : p'.problemArea with
    | none =>
      rw [harea, harea', hnone, hsuffix, append_nil, ← cons_append, ← append_assoc] at h
      obtain ⟨hbody, himpact⟩ := Lib.Text.cut_last (impact_nul _) (hp a harea) h
      exact .inr (.inl ⟨congrArg some (String.toList_injective himpact).symm, hbody⟩)
    | some a' =>
      rw [harea, harea', hsuffix, hsuffix, ← cons_append, ← append_assoc,
        ← cons_append, ← append_assoc] at h
      obtain ⟨hfront, hlast⟩ := Lib.Text.cut_last (hp' a' harea') (hp a harea) h
      obtain ⟨hbody, himpact⟩ := Lib.Text.cut_last (impact_nul _) (impact_nul _) hfront
      exact .inl ⟨hbody, impactText_toList_injective himpact,
        congrArg some (String.toList_injective hlast)⟩

include henv in
theorem Admissible.area_nul (h : Admissible env p) :
    ∀ a, p.problemArea = some a → '\x00' ∉ a.toList := by
  intro a ha
  obtain ⟨-, -, area, harea⟩ := admissible_iff.mp h
  rw [ha] at harea
  exact canonicalArea_nul henv harea

include henv in
theorem OneReading.eq (hone : OneReading p) (hp : Admissible env p) (hp' : Admissible env p')
    (h : p'.text = p.text) : p' = p := by
  rw [text_eq, text_eq] at h
  obtain ⟨hkind, hrest⟩ := joined_eq_iff.mp (encode_injective h)
  rcases rest_cases (hp.area_nul henv) (hp'.area_nul henv) hrest with
    ⟨hbody, himpact, harea⟩ | ⟨harea, hbody⟩ | ⟨harea, hbody⟩
  · have hdescription := hone.own _ _ (hbody ▸ hp'.cut)
    have hevidence : p'.evidence.toList = p.evidence.toList := by
      have hsame : p.description.toList ++ '\x00' :: p'.evidence.toList = p.body :=
        hdescription ▸ hbody
      exact cons_injective (append_cancel_left hsame)
    obtain ⟨kind, description, evidence, impact, problemArea⟩ := p
    obtain ⟨kind', description', evidence', impact', problemArea'⟩ := p'
    simp only [Payload.mk.injEq]
    exact ⟨hkind, String.toList_injective hdescription, String.toList_injective hevidence, himpact,
      harea⟩
  · exact absurd (hbody ▸ hp'.cut) (hone.area _ harea _ _)
  · exact absurd hp'.cut (hone.impact harea _ _ hbody _ _)

include henv in
theorem oneReading_of_told (hp : Admissible env p)
    (h : ∀ p', Admissible env p' → p'.text = p.text → p' = p) : OneReading p := by
  obtain ⟨-, -, harea⟩ := admissible_iff.mp hp
  constructor
  · intro description evidence hcut
    obtain ⟨hadmissible, hbody⟩ := admissible_of_cut hcut p.kind p.impact harea
    have htext := h _ hadmissible (by
      rw [text_eq, text_eq]
      exact congrArg encode (joined_eq_iff.mpr ⟨rfl, by rw [hbody]⟩))
    rw [← htext, String.toList_ofList]
  · intro impact hsome description evidence hcut
    obtain ⟨hadmissible, hbody⟩ := admissible_of_cut hcut p.kind impact
      (⟨none, rfl⟩ : ∃ area, canonicalArea env area = .ok none)
    have htext := h _ hadmissible (by
      rw [text_eq, text_eq]
      refine congrArg encode (joined_eq_iff.mpr ⟨rfl, ?_⟩)
      rw [hbody, hsome]
      simp [areaSuffix])
    rw [← htext] at hsome
    cases hsome
  · intro hnone impact rest hrest description evidence hcut
    obtain ⟨hadmissible, hbody⟩ := admissible_of_cut hcut p.kind impact
      (⟨_, canonicalArea_impact henv p.impact⟩ :
        ∃ area, canonicalArea env area = .ok (some (impactText p.impact)))
    have htext := h _ hadmissible (by
      rw [text_eq, text_eq]
      refine congrArg encode (joined_eq_iff.mpr ⟨rfl, ?_⟩)
      rw [hbody, hrest, hnone]
      simp [areaSuffix])
    rw [← htext] at hnone
    cases hnone

variable {sub : Submission} {call : RecordCall}

theorem record_conflict {world : World} {entry : IdempotencyEntry}
    (hsub : submission env call = .ok sub) (hdegraded : world.inner.degraded = false)
    (hentry : world.inner.idempotency call.sessionId sub.keyHash = some entry)
    (hwindow : withinWindow env call.now entry.acceptedAt = true)
    (hhash : entry.payloadHash ≠ sub.payloadHash) (fates : RecordFates) :
    (recordObservation env call fates world).1 = .error .idempotencyConflict := by
  have hremembered : remembered env call.now sub.payloadHash entry =
      some (.error .idempotencyConflict) := by
    rw [remembered, if_pos hwindow, if_neg hhash]
  simp only [recordObservation, hsub, hdegraded, hentry, Option.bind_some, hremembered]
  rfl

theorem submission_payload (h : submission env call = .ok sub) :
    Admissible env (call.payload sub) ∧ sub.payloadHash = env.sha256 (call.payload sub).text := by
  unfold submission at h
  split at h
  · cases h
  · split at h
    · cases h
    · split at h
      · cases h
      · rename_i source confidence hvalid
        split at h
        · cases h
        · rename_i problemArea harea
          cases h
          exact ⟨⟨call.origin, call.candidate, _, hvalid, harea, rfl, rfl, rfl, rfl⟩, rfl⟩

end readings

/-- A payload is told apart from every other that passes the validation exactly when its
text has one reading. -/
theorem payload_told_apart_iff (env : Env) (henv : env.Unicode) (p : Payload)
    (hp : Admissible env p) : ToldApart env p ↔ OneReading p := by
  constructor
  · intro h
    exact oneReading_of_told henv hp h.preimage
  · intro hone
    refine ⟨fun p' hp' htext => hone.eq henv hp hp' htext, ?_⟩
    intro call fates world sub entry hsub hdegraded hentry hhash hwindow hcollision hdiffers
    obtain ⟨hadmissible, hpayload⟩ := submission_payload hsub
    refine record_conflict hsub hdegraded hentry hwindow ?_ fates
    intro hsame
    have htext := hcollision (hhash.symm.trans (hsame.trans hpayload))
    exact hdiffers (hone.eq henv hp hadmissible htext.symm)

theorem oneReading_of_plain {p : Payload} (hd : '\x00' ∉ p.description.toList)
    (he : '\x00' ∉ p.evidence.toList)
    (harea : ∀ impact, p.problemArea ≠ some (impactText impact)) : OneReading p where
  own := by
    intro description evidence hcut
    -- the body has one NUL, and the cut takes it
    have hcount : (description ++ '\x00' :: evidence).count '\x00' = 1 := by
      rw [← hcut.1, Payload.body, count_append, count_cons_self,
        count_eq_zero.mpr hd, count_eq_zero.mpr he]
    rw [count_append, count_cons_self] at hcount
    have hfree : '\x00' ∉ description := count_eq_zero.mp (by omega)
    exact (Lib.Text.cut_first hd hfree hcut.1).1.symm
  area := fun impact hsome => absurd hsome (harea impact)
  impact := by
    intro _ impact rest hrest description evidence hcut
    obtain ⟨hrest', -⟩ := Lib.Text.cut_last (impact_nul impact) he hrest.symm
    rw [hrest'] at hcut
    exact hd (hcut.1 ▸ mem_append_right _ mem_cons_self)

/-! ## Samples -/

theorem sampleEnv_unicode : sampleEnv.Unicode where
  lower := by
    intro c hc
    have hnot : ¬ (c.val ≥ 'A'.val ∧ c.val ≤ 'Z'.val) := by
      have hlow : 'a'.val ≤ c.val := (of_decide_eq_true (Bool.and_elim_left hc))
      intro h
      exact absurd (UInt32.le_trans hlow h.2) (by decide)
    exact congrArg (fun d => [d]) (dif_neg hnot)
  ascii := fun _ _ => rfl
  lower_nul := by
    intro c hc hmem
    have hlower : '\x00' = c.toLower := mem_singleton.mp hmem
    unfold Char.toLower at hlower
    split at hlower
    · rename_i hupper
      have hval : (0 : UInt32) = c.val + ('a'.val - 'A'.val) := congrArg Char.val hlower
      have hsum : c.val.toNat + 32 < 2 ^ 32 := by
        have hle : c.val.toNat ≤ 90 := hupper.2
        omega
      have hnat := congrArg UInt32.toNat hval
      rw [UInt32.toNat_add] at hnat
      have hstep : ('a'.val - 'A'.val).toNat = 32 := by decide
      rw [hstep, Nat.mod_eq_of_lt hsum] at hnat
      have hzero : (0 : UInt32).toNat = 0 := rfl
      omega
    · exact hc hlower.symm
  nfkc_nul := fun _ h => h

def samplePayload : Payload := ⟨.obstacle, "blocked", "failure", .low, none⟩

theorem sample_admissible : Admissible sampleEnv samplePayload :=
  admissible_iff.mpr ⟨⟨by decide, by decide⟩, ⟨by decide, by decide⟩, none, rfl⟩

theorem sample_payload_told_apart : ToldApart sampleEnv samplePayload :=
  (payload_told_apart_iff sampleEnv sampleEnv_unicode samplePayload sample_admissible).mpr
    (oneReading_of_plain (by decide) (by decide) (fun _ h => by cases h))

/-- A report whose evidence begins where the description of the other ends. -/
def shiftedCall (description evidence id : String) : RecordCall :=
  { sampleCall "k1" id with candidate := ⟨.obstacle, description, evidence, none, .low, none⟩ }

/-- The sample environment with the digest of the text that both reports hash. -/
def shiftedEnv : Env :=
  { sampleEnv with
    sha256 := fun bytes =>
      if bytes = (⟨.obstacle, "a", "b\x00c", .low, none⟩ : Payload).text then
        "079caa4b5e4bb99e965b28aad5b51f1e8e97641ea97a3b656d4824891de1377b"
      else sampleDigest bytes }

/-- A report with the key of an earlier one and another payload is taken for its repetition. -/
theorem shifted_report_is_duplicate :
    Admissible shiftedEnv ⟨.obstacle, "a", "b\x00c", .low, none⟩ ∧
      Admissible shiftedEnv ⟨.obstacle, "a\x00b", "c", .low, none⟩ ∧
      (⟨.obstacle, "a", "b\x00c", .low, none⟩ : Payload).text =
        (⟨.obstacle, "a\x00b", "c", .low, none⟩ : Payload).text ∧
      (recordObservation shiftedEnv (shiftedCall "a\x00b" "c" "o2") .done
        (recordObservation shiftedEnv (shiftedCall "a" "b\x00c" "o1") .done World.fresh).2).1 =
          .ok (.duplicate "o1" 1 "2026-01-01T00:00:00+00:00") := by
  refine ⟨?_, ?_, ?_, ?_⟩
  · exact admissible_iff.mpr ⟨⟨by decide, by decide⟩, ⟨by decide, by decide⟩, none, rfl⟩
  · exact admissible_iff.mpr ⟨⟨by decide, by decide⟩, ⟨by decide, by decide⟩, none, rfl⟩
  · rw [text_eq, text_eq]
    exact congrArg encode rfl
  · decide +kernel

end Orkworksd.Observations
