import Mathlib.Tactic.SplitIfs
import Orkworksd.Observations.Journal

/- The canonical form of a problem area (`canonicalize_problem_area`) and what a second
   canonicalisation makes of it.

   The text is normalised, put in lower case, trimmed, its white space collapsed, and cut to
   a number of characters. The cut comes last: it can end the text in the space between two
   words, which a second call trims.

   `Env.Normalises` is what Unicode says of the normal form NFKC and of lower case. That the
   two do not undo each other is assumed of the text at hand only (`hstable`).

   Main result: `canonicalizeProblemArea_again_iff`. -/
namespace Orkworksd.Observations
open List

open Lib.Text (isControl isWhitespace trim)

/-- Lower case is its own lower case. NFKC and lower case make no control character. A part of
a normal form is a normal form, and a space stands apart from what is around it. -/
structure Env.Normalises (env : Env) : Prop where
  lower_idem : ∀ c, ∀ d ∈ env.toLowercase c, env.toLowercase d = [d]
  lower_space : env.toLowercase ' ' = [' ']
  lower_control : ∀ c, isControl c = false → ∀ d ∈ env.toLowercase c, isControl d = false
  nfkc_control : ∀ text, (∀ c ∈ text, isControl c = false) →
    ∀ c ∈ env.nfkc text, isControl c = false
  nfkc_part : ∀ text part, env.nfkc text = text → part <:+: text → env.nfkc part = part
  nfkc_space : ∀ x y, env.nfkc (x ++ ' ' :: y) = env.nfkc x ++ ' ' :: env.nfkc y

/-- The normal form of a problem area in lower case. -/
def lowered (env : Env) (problemArea : String) : List Char :=
  (env.nfkc problemArea.toList).flatMap env.toLowercase

/-- The canonical form before the cut. -/
def uncut (env : Env) (problemArea : String) : List Char :=
  normalizeDescription env (lowered env problemArea)

/-! ## Collapsed texts -/

/-- A text that collapsing leaves as it is: lower case, words apart by one space. -/
def Clean (env : Env) : Bool → List Char → Prop
  | _, [] => True
  | lastWasSpace, c :: chars =>
    if isWhitespace c = true then c = ' ' ∧ lastWasSpace = false ∧ Clean env true chars
    else env.toLowercase c = [c] ∧ Clean env false chars

section
variable {text : List Char}

theorem collapse_clean {env : Env} {last : Bool} (h : Clean env last text) :
    collapse env last text = text := by
  induction text generalizing last with
  | nil => rfl
  | cons c text ih =>
    rw [Clean] at h
    rw [collapse]
    by_cases hspace : isWhitespace c = true
    · rw [if_pos hspace] at h ⊢
      obtain ⟨rfl, rfl, htext⟩ := h
      rw [ih htext]
      rfl
    · rw [if_neg hspace] at h ⊢
      rw [h.1, ih h.2]
      rfl

theorem clean_collapse {env : Env} (h : ∀ c ∈ text, env.toLowercase c = [c])
    (last : Bool) : Clean env last (collapse env last text) := by
  induction text generalizing last with
  | nil => exact trivial
  | cons c text ih =>
    have htext := ih (fun d hd => h d (mem_cons_of_mem c hd))
    rw [collapse]
    by_cases hspace : isWhitespace c = true
    · rw [if_pos hspace]
      cases last with
      | true => exact htext true
      | false => exact ⟨rfl, rfl, htext true⟩
    · rw [if_neg hspace, h c mem_cons_self]
      have hkept : Clean env last (c :: collapse env false text) := by
        rw [Clean, if_neg hspace]
        exact ⟨h c mem_cons_self, htext false⟩
      exact hkept

theorem Clean.take {env : Env} {last : Bool} (h : Clean env last text)
    (n : Nat) : Clean env last (text.take n) := by
  induction text generalizing last n with
  | nil =>
    rw [take_nil]
    exact trivial
  | cons c text ih =>
    cases n with
    | zero => exact trivial
    | succ n =>
      rw [take_succ_cons]
      rw [Clean] at h ⊢
      by_cases hspace : isWhitespace c = true
      · rw [if_pos hspace] at h ⊢
        exact ⟨h.1, h.2.1, ih h.2.2 n⟩
      · rw [if_neg hspace] at h ⊢
        exact ⟨h.1, ih h.2 n⟩

theorem Clean.mem {env : Env} {last : Bool} (h : Clean env last text)
    {c : Char} (hc : c ∈ text) : c = ' ' ∨ env.toLowercase c = [c] := by
  induction text generalizing last with
  | nil => cases hc
  | cons d text ih =>
    rw [Clean] at h
    by_cases hspace : isWhitespace d = true
    · rw [if_pos hspace] at h
      cases mem_cons.mp hc with
      | inl heq => exact Or.inl (heq.trans h.1)
      | inr hmem => exact ih h.2.2 hmem
    · rw [if_neg hspace] at h
      cases mem_cons.mp hc with
      | inl heq => exact Or.inr (heq ▸ h.1)
      | inr hmem => exact ih h.2 hmem

theorem length_collapse {env : Env} (h : ∀ c ∈ text, env.toLowercase c = [c])
    (last : Bool) : (collapse env last text).length ≤ text.length := by
  induction text generalizing last with
  | nil => exact Nat.le_refl 0
  | cons c text ih =>
    have htext := ih (fun d hd => h d (mem_cons_of_mem c hd))
    have hspaces := htext true
    have hword := htext false
    rw [collapse, h c mem_cons_self]
    split_ifs
    all_goals simp only [length_cons, length_append, length_nil]
    all_goals omega

theorem Clean.space {env : Env} {last : Bool} (h : Clean env last text)
    {c : Char} (hc : c ∈ text) (hspace : isWhitespace c = true) : c = ' ' := by
  induction text generalizing last with
  | nil => cases hc
  | cons d text ih =>
    rw [Clean] at h
    by_cases hd : isWhitespace d = true
    · rw [if_pos hd] at h
      cases mem_cons.mp hc with
      | inl heq => exact heq.trans h.1
      | inr hmem => exact ih h.2.2 hmem
    · rw [if_neg hd] at h
      cases mem_cons.mp hc with
      | inl heq => exact absurd (heq ▸ hspace) hd
      | inr hmem => exact ih h.2 hmem

theorem mem_collapse {env : Env} (h : ∀ c ∈ text, env.toLowercase c = [c])
    {last : Bool} {c : Char} (hc : c ∈ collapse env last text) : c = ' ' ∨ c ∈ text := by
  induction text generalizing last with
  | nil => cases hc
  | cons d text ih =>
    have htext := fun last hmem => @ih (fun e he => h e (mem_cons_of_mem d he)) last hmem
    rw [collapse, h d mem_cons_self] at hc
    split_ifs at hc
    · exact (htext true hc).imp_right (mem_cons_of_mem d)
    · cases mem_cons.mp hc with
      | inl heq => exact Or.inl heq
      | inr hmem => exact (htext true hmem).imp_right (mem_cons_of_mem d)
    · cases mem_cons.mp hc with
      | inl heq => exact Or.inr (heq ▸ mem_cons_self)
      | inr hmem => exact (htext false hmem).imp_right (mem_cons_of_mem d)

theorem getLast?_collapse {env : Env} (h : ∀ c ∈ text, env.toLowercase c = [c])
    {c : Char} (hlast : text.getLast? = some c) (hspace : isWhitespace c = false) (last : Bool) :
    (collapse env last text).getLast? = some c := by
  induction text generalizing last with
  | nil => cases hlast
  | cons d text ih =>
    rw [collapse, h d mem_cons_self]
    cases text with
    | nil =>
      obtain rfl : d = c := Option.some.inj hlast
      rw [if_neg (by rw [hspace]; decide)]
      rfl
    | cons e text =>
      have hrest := ih (fun x hx => h x (mem_cons_of_mem d hx)) (by rwa [List.getLast?_cons_cons] at hlast)
      split_ifs
      · exact hrest true
      · rw [List.getLast?_cons, hrest true]
        rfl
      · rw [List.getLast?_append, hrest false]
        rfl

end

theorem nfkc_collapse {env : Env} (henv : env.Normalises) {before text : List Char} {last : Bool}
    (h : ∀ c ∈ text, env.toLowercase c = [c]) (hnormal : env.nfkc (before ++ text) = before ++ text)
    (hbefore : last = true → before = []) :
    env.nfkc (before ++ collapse env last text) = before ++ collapse env last text := by
  induction text generalizing before last with
  | nil => exact hnormal
  | cons c text ih =>
    have htext : ∀ d ∈ text, env.toLowercase d = [d] := fun d hd => h d (mem_cons_of_mem c hd)
    have hrest : env.nfkc text = text := by
      refine henv.nfkc_part _ _ hnormal ?_
      exact ((suffix_cons c text).trans (suffix_append before (c :: text))).isInfix
    rw [collapse, h c mem_cons_self]
    split_ifs with hspace hlast
    · rw [hbefore hlast]
      exact ih htext hrest (fun _ => rfl)
    · have hword : env.nfkc before = before :=
        henv.nfkc_part _ _ hnormal (prefix_append before (c :: text)).isInfix
      have hmore := @ih [] true htext hrest (fun _ => rfl)
      rw [nil_append] at hmore
      rw [henv.nfkc_space, hword, hmore]
    · have hword := @ih (before ++ [c]) false htext (by simpa using hnormal)
        (fun hfalse => Bool.noConfusion hfalse)
      simpa using hword

/-! ## Trimmed texts -/

theorem trim_within (text : List Char) : trim text <:+: text := by
  have hlead : trim text <+: text.dropWhile isWhitespace :=
    reverse_suffix.mp (by
      rw [trim, reverse_reverse]
      exact dropWhile_suffix _)
  exact hlead.isInfix.trans (dropWhile_suffix _).isInfix

theorem getLast?_trim {text : List Char} {c : Char} (h : (trim text).getLast? = some c) :
    isWhitespace c = false := by
  rw [trim, List.getLast?_reverse] at h
  have hhead := List.head?_dropWhile_not isWhitespace (text.dropWhile isWhitespace).reverse
  rw [h] at hhead
  exact hhead

theorem head?_trim {text : List Char} {c : Char} (h : (trim text).head? = some c) :
    isWhitespace c = false := by
  have hlead : trim text <+: text.dropWhile isWhitespace :=
    reverse_suffix.mp (by
      rw [trim, reverse_reverse]
      exact dropWhile_suffix _)
  obtain ⟨rest, hrest⟩ := hlead
  have hhead := List.head?_dropWhile_not isWhitespace text
  rw [← hrest, List.head?_append, h] at hhead
  exact hhead

theorem trim_of_ends {text : List Char} (hhead : ∀ c, text.head? = some c → isWhitespace c = false)
    (hlast : ∀ c, text.getLast? = some c → isWhitespace c = false) : trim text = text := by
  have hdrop : ∀ chars : List Char, (∀ c, chars.head? = some c → isWhitespace c = false) →
      chars.dropWhile isWhitespace = chars := by
    intro chars hchars
    cases chars with
    | nil => rfl
    | cons c chars => rw [dropWhile_cons_of_neg (by rw [hchars c rfl]; decide)]
  rw [trim, hdrop text hhead, hdrop text.reverse (by rwa [List.head?_reverse]), reverse_reverse]

/-! ## Canonical areas -/

theorem lowered_fixed {env : Env} (henv : env.Normalises) (area : String) :
    ∀ c ∈ trim (lowered env area), env.toLowercase c = [c] := by
  intro c hc
  obtain ⟨d, -, hd⟩ := mem_flatMap.mp ((trim_within _).subset hc)
  exact henv.lower_idem d c hd

theorem ends_uncut {env : Env} (henv : env.Normalises) (area : String) :
    (∀ c, (uncut env area).head? = some c → isWhitespace c = false) ∧
    ∀ c, (uncut env area).getLast? = some c → isWhitespace c = false := by
  have hfixed := lowered_fixed henv area
  constructor
  · intro c hc
    cases htrim : trim (lowered env area) with
    | nil =>
      rw [uncut, normalizeDescription, htrim] at hc
      cases hc
    | cons d text =>
      have hd : isWhitespace d = false := head?_trim (by rw [htrim]; rfl)
      have hlower := hfixed d (by rw [htrim]; exact mem_cons_self)
      rw [uncut, normalizeDescription, htrim, collapse, if_neg (by rw [hd]; decide), hlower] at hc
      obtain rfl : d = c := Option.some.inj hc
      exact hd
  · intro c hc
    cases hlast : (trim (lowered env area)).getLast? with
    | none =>
      rw [uncut, normalizeDescription, List.getLast?_eq_none_iff.mp hlast] at hc
      cases hc
    | some d =>
      have hd := getLast?_trim hlast
      rw [uncut, normalizeDescription, getLast?_collapse hfixed hlast hd false] at hc
      obtain rfl : d = c := Option.some.inj hc
      exact hd

section Canonical

variable {env : Env} (henv : env.Normalises) {area canonical : String}
  (h : canonicalizeProblemArea env area = .ok canonical)
include h

theorem canonicalize_ok : (∀ c ∈ area.toList, isControl c = false) ∧ uncut env area ≠ [] ∧
    canonical.toList = (uncut env area).take maxProblemAreaChars := by
  unfold canonicalizeProblemArea at h
  split at h
  · cases h
  · rename_i hcontrol
    dsimp only at h
    split at h
    · cases h
    · rename_i hempty
      obtain rfl := Except.ok.inj h
      refine ⟨fun c hc => ?_, fun hnil => hempty (List.isEmpty_iff.mpr hnil), String.toList_ofList⟩
      by_contra hc'
      exact hcontrol (any_eq_true.mpr ⟨c, hc, by simpa using hc'⟩)

include henv

theorem clean_canonical : Clean env false canonical.toList := by
  rw [(canonicalize_ok h).2.2]
  exact (clean_collapse (lowered_fixed henv area) false).take _

theorem lower_canonical : canonical.toList.flatMap env.toLowercase = canonical.toList := by
  have hfixed : ∀ chars : List Char, (∀ c ∈ chars, env.toLowercase c = [c]) →
      chars.flatMap env.toLowercase = chars := by
    intro chars hchars
    induction chars with
    | nil => rfl
    | cons c chars ih =>
      rw [flatMap_cons, hchars c mem_cons_self, ih (fun d hd => hchars d (mem_cons_of_mem c hd))]
      rfl
  refine hfixed _ (fun c hc => ?_)
  cases (clean_canonical henv h).mem hc with
  | inl hspace => rw [hspace, henv.lower_space]
  | inr hlower => exact hlower

theorem control_canonical : canonical.toList.any isControl = false := by
  obtain ⟨hcontrol, -, htake⟩ := canonicalize_ok h
  rw [any_eq_false]
  intro c hc
  rw [htake] at hc
  cases mem_collapse (lowered_fixed henv area) (mem_of_mem_take hc) with
  | inl hspace =>
    rw [hspace]
    decide
  | inr hmem =>
    obtain ⟨d, hd, hlower⟩ := mem_flatMap.mp ((trim_within _).subset hmem)
    rw [henv.lower_control d (henv.nfkc_control _ hcontrol d hd) c hlower]
    decide

theorem head_canonical : ∀ c, canonical.toList.head? = some c → isWhitespace c = false := by
  intro c hc
  obtain ⟨-, -, htake⟩ := canonicalize_ok h
  rw [htake, List.head?_take, if_neg (by decide)] at hc
  exact (ends_uncut henv area).1 c hc

theorem last_canonical : (∀ c, canonical.toList.getLast? = some c → isWhitespace c = false) ↔
    (uncut env area)[maxProblemAreaChars - 1]? ≠ some ' ' := by
  obtain ⟨-, -, htake⟩ := canonicalize_ok h
  have hlast : canonical.toList.getLast? =
      (uncut env area)[maxProblemAreaChars - 1]?.or (uncut env area).getLast? := by
    rw [htake, List.getLast?_take, if_neg (by decide)]
  constructor
  · intro hword hspace
    rw [hspace] at hlast
    exact absurd (hword ' ' hlast) (by decide)
  · intro hcut c hc
    rw [hlast] at hc
    cases hat : (uncut env area)[maxProblemAreaChars - 1]? with
    | none =>
      rw [hat] at hc
      exact (ends_uncut henv area).2 c hc
    | some d =>
      rw [hat] at hc hcut hlast
      obtain rfl : d = c := Option.some.inj hc
      by_contra hspace
      have hmem : d ∈ canonical.toList := mem_of_getLast? hlast
      exact hcut (congrArg some ((clean_canonical henv h).space hmem (by simpa using hspace)))

variable (hstable : env.nfkc (lowered env area) = lowered env area)
include hstable

theorem nfkc_canonical : env.nfkc canonical.toList = canonical.toList := by
  have hcollapse := @nfkc_collapse env henv [] _ false (lowered_fixed henv area)
    (henv.nfkc_part _ _ hstable (trim_within _)) (fun hfalse => Bool.noConfusion hfalse)
  rw [nil_append] at hcollapse
  rw [(canonicalize_ok h).2.2]
  exact henv.nfkc_part _ _ hcollapse (List.take_prefix _ _).isInfix

theorem canonicalize_again : canonicalizeProblemArea env canonical =
    if (collapse env false (trim canonical.toList)).isEmpty then .error .emptyProblemArea
    else .ok (String.ofList ((collapse env false (trim canonical.toList)).take maxProblemAreaChars)) := by
  rw [canonicalizeProblemArea, if_neg (by rw [control_canonical henv h]; decide)]
  simp only [nfkc_canonical henv h hstable, lower_canonical henv h, normalizeDescription]

end Canonical

/-- A second canonicalisation returns a canonical area, and the fingerprint is that of the
area, exactly when the cut does not fall right after a space. -/
theorem canonicalizeProblemArea_again_iff (env : Env) (henv : env.Normalises)
    (area canonical : String) (h : canonicalizeProblemArea env area = .ok canonical)
    (hstable : env.nfkc (lowered env area) = lowered env area) :
    (canonicalizeProblemArea env canonical = .ok canonical ∧
      ∀ kind, (canonicalizeProblemArea env canonical).map (fingerprintV2 env kind) =
        .ok (fingerprintV2 env kind canonical)) ↔
      (uncut env area)[maxProblemAreaChars - 1]? ≠ some ' ' := by
  rw [← last_canonical henv h]
  obtain ⟨-, hne, htake⟩ := canonicalize_ok h
  constructor
  · intro hagain c hc
    have hsame := hagain.1
    rw [canonicalize_again henv h hstable] at hsame
    split at hsame
    · cases hsame
    · -- A cut and collapsed text as long as before was not trimmed.
      have htext := congrArg String.toList (Except.ok.inj hsame)
      rw [String.toList_ofList] at htext
      have hfixed : ∀ d ∈ trim canonical.toList, env.toLowercase d = [d] := by
        intro d hd
        cases (clean_canonical henv h).mem ((trim_within _).subset hd) with
        | inl hspace => rw [hspace, henv.lower_space]
        | inr hlower => exact hlower
      have hlength : canonical.toList.length ≤ (trim canonical.toList).length := by
        calc canonical.toList.length
            = ((collapse env false (trim canonical.toList)).take maxProblemAreaChars).length := by
              rw [htext]
          _ ≤ (collapse env false (trim canonical.toList)).length := length_take_le' _ _
          _ ≤ (trim canonical.toList).length := length_collapse hfixed false
      have htrim := (trim_within canonical.toList).sublist.eq_of_length_le hlength
      exact getLast?_trim (by rw [htrim]; exact hc)
  · intro hlast
    have htrim := trim_of_ends (head_canonical henv h) hlast
    have hcollapse := collapse_clean (clean_canonical henv h)
    have hlength : canonical.toList.length ≤ maxProblemAreaChars := by
      rw [htake]
      exact length_take_le _ _
    have hcanonical : canonical.toList ≠ [] := by
      rw [htake]
      intro hnil
      cases take_eq_nil_iff.mp hnil with
      | inl hzero => exact absurd hzero (by decide)
      | inr hnil => exact hne hnil
    have hsame : canonicalizeProblemArea env canonical = .ok canonical := by
      rw [canonicalize_again henv h hstable, htrim, hcollapse, take_of_length_le hlength,
        String.ofList_toList, if_neg (by rwa [List.isEmpty_iff])]
    refine ⟨hsame, fun kind => ?_⟩
    rw [hsame]
    rfl

/-! ## A cut after a space -/

theorem toLower_cases (c : Char) :
    c.toLower = c ∧ (c.toNat < 65 ∨ 90 < c.toNat) ∨
      65 ≤ c.toNat ∧ c.toNat ≤ 90 ∧ c.toLower.toNat = c.toNat + 32 := by
  unfold Char.toLower
  split
  · rename_i hupper
    have hlow : 65 ≤ c.toNat := hupper.1
    have hhigh : c.toNat ≤ 90 := hupper.2
    refine Or.inr ⟨hlow, hhigh, ?_⟩
    show (c.val + 32).toNat = c.toNat + 32
    rw [UInt32.toNat_add]
    show (c.toNat + 32) % 4294967296 = c.toNat + 32
    omega
  · rename_i hother
    refine Or.inl ⟨rfl, ?_⟩
    by_contra hnot
    have hlow : 65 ≤ c.toNat := by omega
    have hhigh : c.toNat ≤ 90 := by omega
    exact hother ⟨hlow, hhigh⟩

theorem sampleEnv_normalises : sampleEnv.Normalises where
  lower_idem := by
    intro c d hd
    obtain rfl : d = c.toLower := mem_singleton.mp hd
    refine congrArg (fun e => [e]) ?_
    cases toLower_cases c.toLower with
    | inl hsame => exact hsame.1
    | inr hupper =>
      cases toLower_cases c with
      | inl hsame =>
        rw [hsame.1] at hupper
        omega
      | inr hletter => omega
  lower_space := rfl
  lower_control := by
    intro c hc d hd
    obtain rfl : d = c.toLower := mem_singleton.mp hd
    cases toLower_cases c with
    | inl hsame => rwa [hsame.1]
    | inr hletter =>
      simp only [isControl, Bool.or_eq_false_iff, Bool.and_eq_false_iff, decide_eq_false_iff_not]
      omega
  nfkc_control := fun _ h => h
  nfkc_part := fun _ _ _ _ => rfl
  nfkc_space := fun _ _ => rfl

theorem sampleEnv_nfkc (text : List Char) : sampleEnv.nfkc text = text := rfl

/-- Words that fit. -/
theorem canonicalizeProblemArea_again_words :
    (canonicalizeProblemArea sampleEnv "model detection" = .ok "model detection" ∧
      ∀ kind, (canonicalizeProblemArea sampleEnv "model detection").map (fingerprintV2 sampleEnv kind) =
        .ok (fingerprintV2 sampleEnv kind "model detection")) :=
  (canonicalizeProblemArea_again_iff sampleEnv sampleEnv_normalises " Model\u2028 Detection" _
    (by decide +kernel) (sampleEnv_nfkc _)).mpr (by decide +kernel)

/-- A word of 119 characters and another one. -/
def wordsAtCut : String := String.ofList (List.replicate 119 'x' ++ [' ', 'y'])

def cutArea : String := String.ofList (List.replicate 119 'x' ++ [' '])

def trimmedArea : String := String.ofList (List.replicate 119 'x')

/-- The cut leaves the space, and the second call trims it. -/
theorem canonicalizeProblemArea_cut :
    sampleEnv.Normalises ∧
    sampleEnv.nfkc (lowered sampleEnv wordsAtCut) = lowered sampleEnv wordsAtCut ∧
    ∃ canonical again, canonicalizeProblemArea sampleEnv wordsAtCut = .ok canonical ∧
      canonicalizeProblemArea sampleEnv canonical = .ok again ∧ again ≠ canonical := by
  refine ⟨sampleEnv_normalises, sampleEnv_nfkc _, cutArea, trimmedArea, ?_, ?_, ?_⟩
  · decide +kernel
  · decide +kernel
  · decide +kernel

end Orkworksd.Observations
