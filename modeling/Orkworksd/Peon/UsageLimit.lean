import Orkworksd.Lib.Text
import Orkworksd.Peon.UsageScan

/- Usage-limit banners in a terminal's output (`peon.rs`: `banner_match` and the `detect_usage_limit`
   family, `capacity_line_evidence`).

   Rows are lists of characters and the positions in them are counted in characters, where the
   source counts bytes: lowering ASCII letters changes neither. `char::is_alphanumeric` is the
   parameter `alphanumeric`. -/
namespace Orkworksd.Peon.UsageLimit
open Lib.Text List

/-! ## Searching a text -/

/-- `str::to_ascii_lowercase`. -/
def toAsciiLowercase (text : List Char) : List Char := text.map Char.toLower

/-- `str::find` for a text. -/
def find (needle : List Char) : List Char → Option Nat
  | [] => if needle = [] then some 0 else none
  | c :: text =>
    if needle.isPrefixOf (c :: text) then some 0 else (find needle text).map (· + 1)

/-- `str::match_indices`: where the pattern is found, from `at` on and after `skip` more
characters. -/
def matchIndices (pattern : List Char) : Nat → Nat → List Char → List Nat
  | _, start, [] => if pattern = [] then [start] else []
  | skip + 1, start, _ :: text => matchIndices pattern skip (start + 1) text
  | 0, start, c :: text =>
    if pattern.isPrefixOf (c :: text) then
      start :: matchIndices pattern (pattern.length - 1) (start + 1) text
    else matchIndices pattern 0 (start + 1) text

/-- `str::trim_end`. -/
def trimEnd (text : List Char) : List Char := (text.reverse.dropWhile isWhitespace).reverse

/-! ## Banners -/

def limitContextMaxChars : Nat := 48

def limitPrefixMaxChars : Nat := 24

def limitTailMaxChars : Nat := 72

def limitHintAnchorMaxPrefix : Nat := 12

def hintMaxChars : Nat := 80

def bannerQuoteChars : List Char := [0x22, 0x60, 0x201c, 0x201d, 0x2018, 0x2019].map Char.ofNat

def bannerPrefixGlyphs : List Char :=
  ['·', '•', '✳', '✻', '✽', '✶', '●', '○', '◐', '■', '□', '▪', '▫', '█', '▓', '▒', '░', '│', '┃',
   '╭', '╰', '╮', '╯', '─', '━', '═', '—', '…']

def hintStopGlyphs : List Char :=
  ['✳', '✻', '✽', '✶', '●', '○', '◐', '·', '│', '╭', '╰', '─', '—']

def isBannerPrefixChar (c : Char) : Bool := isWhitespace c || bannerPrefixGlyphs.contains c

def isBannerChromeChar (c : Char) : Bool := isWhitespace c || bannerPrefixGlyphs.contains c

/-- Where a reset hint starts in a lowered text. -/
def hintStart (lower : List Char) : Option Nat :=
  (find "resets in".toList lower).or ((find "reset in".toList lower).or
    ((find "resets ".toList lower).or (find "try again at".toList lower)))

def suffixAnchorChars (suffixLower : List Char) : Option Nat := hintStart suffixLower

def extractResetHint (plain lower : List Char) : Option (List Char) :=
  (hintStart lower).map (fun start =>
    let fragment := (plain.drop start).takeWhile (fun c => c ≠ '.' ∧ c ≠ '\n')
    let fragment := fragment.takeWhile (fun c => !hintStopGlyphs.contains c)
    trimEnd ((trim fragment).take hintMaxChars))

section alphanumeric
variable (alphanumeric : Char → Bool)

def isCleanHintChar (c : Char) : Bool :=
  alphanumeric c || isWhitespace c || [':', '(', ')', '.', '/', '-', '·'].contains c

def validatedResetHint (suffixPlain suffixLower : List Char) : Option (List Char) :=
  (suffixAnchorChars suffixLower).bind (fun anchor =>
    if limitHintAnchorMaxPrefix < anchor then none
    else (extractResetHint suffixPlain suffixLower).bind (fun hint =>
      if hint.length = 0 ∨ hint.all (isCleanHintChar alphanumeric) = false ∨
          limitTailMaxChars < suffixLower.length - hint.length then none
      else some hint))

/-- The loop of `banner_match` over the places where the pattern is found. -/
def bannerLoop (plain patternLower : List Char) : List Nat → Option (Nat × Option (List Char))
  | [] => none
  | start :: starts =>
    let before := plain.take start
    if limitPrefixMaxChars < before.length ∨ before.all isBannerPrefixChar = false then
      bannerLoop plain patternLower starts
    else if plain.any bannerQuoteChars.contains then none
    else
      let finish := UsageScan.byteLength (plain.take (start + patternLower.length))
      let suffixPlain := plain.drop (start + patternLower.length)
      let suffixLower := toAsciiLowercase suffixPlain
      if suffixLower.all isBannerChromeChar then some (finish, none)
      else if suffixLower.length ≤ limitContextMaxChars then
        match validatedResetHint alphanumeric suffixPlain suffixLower with
        | some hint => some (finish, some hint)
        | none => bannerLoop plain patternLower starts
      else
        match validatedResetHint alphanumeric suffixPlain suffixLower with
        | some hint => some (finish, some hint)
        | none => bannerLoop plain patternLower starts

def bannerMatch (plain patternLower : List Char) : Option (Nat × Option (List Char)) :=
  let lower := toAsciiLowercase (plain.take (limitPrefixMaxChars + patternLower.length))
  bannerLoop alphanumeric plain patternLower (matchIndices patternLower 0 0 lower)

def bannerMatchEnd (plain patternLower : List Char) : Option Nat :=
  (bannerMatch alphanumeric plain patternLower).map Prod.fst

def boundedLimitMatch (plain patternLower : List Char) : Bool :=
  (bannerMatchEnd alphanumeric plain patternLower).isSome

def colocatedBannerHint (plain patternLower : List Char) : Option (List Char) :=
  (bannerMatch alphanumeric plain patternLower).bind Prod.snd

/-! ## Detection -/

/-- The rows of a text: `strip_ansi_for_usage_limit(text).split(['\r', '\n'])`. -/
def rows (text : List Char) : List (List Char) :=
  (stripAnsiForUsageLimit text).splitOnP (fun c => c = '\r' ∨ c = '\n')

def detectUsageLimitRaw (patterns : List (List Char)) (text : List Char) : Bool :=
  if patterns = [] then false
  else (rows text).any (fun segment =>
    patterns.any (fun p => boundedLimitMatch alphanumeric segment (toAsciiLowercase p)))

def detectUsageLimit (patterns : List (List Char)) (lines : List (List Char)) : Bool :=
  if patterns = [] then false
  else lines.any (fun line => (rows line).any (fun segment =>
    patterns.any (fun p => boundedLimitMatch alphanumeric segment (toAsciiLowercase p))))

def detectUsageLimitHintRaw (patterns : List (List Char)) (text : List Char) :
    Option (List Char) :=
  if patterns = [] then none
  else (rows text).findSome? (fun segment =>
    patterns.findSome? (fun p => colocatedBannerHint alphanumeric segment (toAsciiLowercase p)))

def detectUsageLimitHint (patterns : List (List Char)) (lines : List (List Char)) :
    Option (List Char) :=
  if patterns = [] then none
  else lines.reverse.findSome? (fun line => (rows line).findSome? (fun segment =>
    patterns.findSome? (fun p => colocatedBannerHint alphanumeric segment (toAsciiLowercase p))))

def capacityLineEvidence (patterns : List (List Char)) (text : List Char) :
    Bool × Option (List Char) :=
  if patterns = [] ∨ text = [] then (false, none)
  else
    ((rows text).any (fun segment =>
      patterns.any (fun p => boundedLimitMatch alphanumeric segment (toAsciiLowercase p))),
     (rows text).findSome? (fun segment =>
      patterns.findSome? (fun p => colocatedBannerHint alphanumeric segment (toAsciiLowercase p))))

variable {alphanumeric : Char → Bool}

variable (patterns : List (List Char))

variable (lines : List (List Char))

theorem detectUsageLimit_eq : detectUsageLimit alphanumeric patterns lines =
      lines.any (detectUsageLimitRaw alphanumeric patterns) := by
  unfold detectUsageLimit detectUsageLimitRaw
  by_cases h : patterns = []
  · rw [if_pos h]
    simp only [if_pos h, any_eq_false.mpr (fun _ _ => Bool.false_ne_true)]
  · simp only [if_neg h]

theorem detectUsageLimitHint_eq : detectUsageLimitHint alphanumeric patterns lines =
      lines.reverse.findSome? (detectUsageLimitHintRaw alphanumeric patterns) := by
  unfold detectUsageLimitHint detectUsageLimitHintRaw
  by_cases h : patterns = []
  · simp only [if_pos h]
    exact (List.findSome?_eq_none_iff.mpr (fun _ _ => rfl)).symm
  · simp only [if_neg h]

theorem capacityLineEvidence_eq {text : List Char} (h : text ≠ []) (patterns : List (List Char)) :
    capacityLineEvidence alphanumeric patterns text =
      (detectUsageLimitRaw alphanumeric patterns text,
        detectUsageLimitHintRaw alphanumeric patterns text) := by
  rw [capacityLineEvidence, detectUsageLimitRaw, detectUsageLimitHintRaw]
  by_cases hp : patterns = []
  · rw [if_pos (.inl hp), if_pos hp, if_pos hp]
  · rw [if_neg (not_or.mpr ⟨hp, h⟩), if_neg hp, if_neg hp]

/-! ## The empty text

A row without characters has no banner, unless a pattern is empty too. -/

theorem rows_nil : rows [] = [[]] := rfl

theorem bannerMatch_nil {pattern : List Char} (h : pattern ≠ []) :
    bannerMatch alphanumeric [] pattern = none := by
  have hnone : matchIndices pattern 0 0 [] = [] := if_neg h
  rw [bannerMatch, take_nil]
  show bannerLoop alphanumeric [] pattern (matchIndices pattern 0 0 []) = none
  rw [hnone]
  rfl

theorem colocatedBannerHint_nil (pattern : List Char) :
    colocatedBannerHint alphanumeric [] pattern = none := by
  by_cases h : pattern = []
  · rw [h]
    rfl
  · rw [colocatedBannerHint, bannerMatch_nil h]
    rfl

theorem detectUsageLimitHintRaw_nil : detectUsageLimitHintRaw alphanumeric patterns [] = none := by
  rw [detectUsageLimitHintRaw, rows_nil]
  split
  · rfl
  · rw [List.findSome?_eq_none_iff]
    intro row hrow
    rw [mem_singleton.mp hrow, List.findSome?_eq_none_iff]
    exact fun p _ => colocatedBannerHint_nil _

theorem detectUsageLimitRaw_nil {patterns : List (List Char)} (h : [] ∉ patterns) :
    detectUsageLimitRaw alphanumeric patterns [] = false := by
  rw [detectUsageLimitRaw, rows_nil]
  split
  · rfl
  · rw [any_eq_false]
    intro row hrow
    rw [mem_singleton.mp hrow, Bool.not_eq_true, any_eq_false]
    intro p hp
    have hp' : toAsciiLowercase p ≠ [] := fun hnil => h (map_eq_nil_iff.mp hnil ▸ hp)
    rw [boundedLimitMatch, bannerMatchEnd, bannerMatch_nil hp']
    exact Bool.false_ne_true

end alphanumeric

end Orkworksd.Peon.UsageLimit
