import Mathlib.Data.List.TakeWhile
import Orkworksd.Lib.Except
import Orkworksd.Lib.JsonGrammar

/- The desktop's strict JSON reader (`strictJson.ts`): a scanner over the decoded text, and
   then `JSON.parse`.

   `JSON.parse` is a parameter that follows RFC 8259 (`FollowsRfc`). A run of the scanner is
   given by what is left of the text, so an index past the end is the empty rest; the messages
   of its errors are left out. It runs on a fuel, and `fuel` is how it stops when that is used
   up, which `parseStrictJson_accepts` says never happens.

   `StrictText` is what is to be accepted, in terms of the grammar's trees. The leaves are
   compared with the trees here (`stringLoop_sound` and `stringLoop_complete`, `number_sound`
   and `number_complete`), arrays and objects in the module after this one. -/
namespace Orkworksd.Desktop.StrictJson
open List

open Lib Lib.JsonGrammar

/-! ## The source -/

/-- Why a call gives no result: the error that `fail` throws, or the fuel. -/
inductive Stop where
  | failed
  | fuel
  deriving DecidableEq, Repr

def orFail {α : Type} : Option α → Except Stop α
  | some a => .ok a
  | none => .error .failed

/-- `JSON.parse`, and `as string`: the code units of a value that is a string. -/
structure JsonParse (V : Type) where
  parse : List Char → Option V
  asString : V → List Nat

structure JsonParse.FollowsRfc {V : Type} (js : JsonParse V) : Prop where
  accepts : ∀ chars, (js.parse chars).isSome = true ↔ IsText chars
  strings : ∀ items value, js.parse (quoted items) = some value → js.asString value = units items

def maxDepth : Nat := 32

def skipWhitespace (rest : List Char) : List Char := rest.dropWhile Json.isSpace

def take (char : Char) : List Char → Option (List Char)
  | [] => none
  | c :: rest => if c = char then some rest else none

def literal (value rest : List Char) : Option (List Char) :=
  if value.isPrefixOf rest then some (rest.drop value.length) else none

def isHigh (codeUnit : Nat) : Prop := 0xd800 ≤ codeUnit ∧ codeUnit ≤ 0xdbff

def isLow (codeUnit : Nat) : Prop := 0xdc00 ≤ codeUnit ∧ codeUnit ≤ 0xdfff

instance (codeUnit : Nat) : Decidable (isHigh codeUnit) :=
  inferInstanceAs (Decidable (0xd800 ≤ codeUnit ∧ codeUnit ≤ 0xdbff))

instance (codeUnit : Nat) : Decidable (isLow codeUnit) :=
  inferInstanceAs (Decidable (0xdc00 ≤ codeUnit ∧ codeUnit ≤ 0xdfff))

/-- `readHexCodeUnit`, with what follows the `u`. -/
def readHexCodeUnit (rest : List Char) : Option (Nat × List Char) :=
  let hex := rest.take 4
  if hex.length ≠ 4 ∨ hex.all (fun c => (Json.hexValue c).isSome) = false then none
  else some (hex.foldl (fun n c => 16 * n + (Json.hexValue c).getD 0) 0, rest.drop 4)

def shortEscapes : List Char := ['"', '\\', '/', 'b', 'f', 'n', 'r', 't']

/-- What the loop of `string` does after a backslash. At the end of the text it goes on, as
`includes('')` holds, and the loop ends. -/
def escape : List Char → Option (List Char)
  | [] => some []
  | c :: rest =>
    if c ∈ shortEscapes then some rest
    else if c ≠ 'u' then none
    else do
      let (codeUnit, rest) ← readHexCodeUnit rest
      if isHigh codeUnit then
        if rest.take 2 ≠ ['\\', 'u'] then none
        else do
          let (low, rest) ← readHexCodeUnit (rest.drop 2)
          if isLow low then some rest else none
      else if isLow codeUnit then none
      else some rest

def stringLoop : Nat → List Char → Except Stop (List Char)
  | 0, _ => .error .fuel
  | _ + 1, [] => .error .failed
  | fuel + 1, c :: rest =>
    if c = '"' then .ok rest
    else if c.toNat < 0x20 then .error .failed
    else if c ≠ '\\' then stringLoop fuel rest
    else orFail (escape rest) >>= stringLoop fuel

/-- The first match of `0|[1-9][0-9]*`. -/
def numberToken : List Char → Option (List Char)
  | [] => none
  | c :: rest =>
    if c = '0' then some [c]
    else if '1' ≤ c ∧ c ≤ '9' then some (c :: rest.takeWhile Char.isDigit)
    else none

/-- `[\s,\]}]`. -/
def endsNumber (c : Char) : Bool :=
  c == ',' || c == ']' || c == closeBrace || (0x9 ≤ c.toNat && c.toNat ≤ 0xd) ||
    (0x2000 ≤ c.toNat && c.toNat ≤ 0x200a) ||
    [0x20, 0xa0, 0x1680, 0x2028, 0x2029, 0x202f, 0x205f, 0x3000, 0xfeff].contains c.toNat

/-- The integer of 53 digits nearest to one, the even one of two. -/
def roundToDouble (n : Nat) : Nat :=
  let e := Nat.log2 n - 52
  let q := n / 2 ^ e
  let r := 2 * (n % 2 ^ e)
  (if 2 ^ e < r ∨ (r = 2 ^ e ∧ q % 2 = 1) then q + 1 else q) * 2 ^ e

def doubleDigits : Nat := 1024

def doubleLimit : Nat := 2 ^ doubleDigits

/-- The double nearest to an integer: no result where that is infinite. -/
def toDouble (n : Nat) : Option Nat :=
  if roundToDouble n < doubleLimit then some (roundToDouble n) else none

def isSafeInteger (number : Option Nat) : Bool := number.any (· ≤ 2 ^ 53 - 1)

/-- `Number` of a token. -/
def decimal (token : List Char) : Nat :=
  token.foldl (fun n c => 10 * n + (c.toNat - 0x30)) 0

def number (rest : List Char) : Option (List Char) := do
  let token ← numberToken rest
  let next := (rest.drop token.length).head?
  if next.any (fun c => !endsNumber c) then none
  else if isSafeInteger (toDouble (decimal token)) then some (rest.drop token.length)
  else none

section scanner
variable {V : Type} (js : JsonParse V)

/-- `string`, at its opening quote: the code units of what `JSON.parse` reads the slice as. -/
def string (source : List Char) : Except Stop (List Nat × List Char) := do
  let rest ← stringLoop source.length source.tail
  let value ← orFail (js.parse (source.take (source.length - rest.length)))
  return (js.asString value, rest)

mutual
def value : Nat → Nat → List Char → Except Stop (List Char)
  | 0, _, _ => .error .fuel
  | fuel + 1, depth, rest =>
    match skipWhitespace rest with
    | [] => .error .failed
    | c :: rest =>
      if c = brace then object fuel (depth + 1) rest
      else if c = '[' then array fuel (depth + 1) rest
      else if c = '"' then do
        let (_, rest) ← string js (c :: rest)
        return rest
      else if c = 't' then orFail (literal ['t', 'r', 'u', 'e'] (c :: rest))
      else if c = 'f' then orFail (literal ['f', 'a', 'l', 's', 'e'] (c :: rest))
      else if c = 'n' then orFail (literal ['n', 'u', 'l', 'l'] (c :: rest))
      else if '0' ≤ c ∧ c ≤ '9' then orFail (number (c :: rest))
      else .error .failed

/-- `object`, behind its brace. -/
def object : Nat → Nat → List Char → Except Stop (List Char)
  | 0, _, _ => .error .fuel
  | fuel + 1, depth, rest =>
    if maxDepth < depth then .error .failed
    else
      match take closeBrace (skipWhitespace rest) with
      | some rest => .ok rest
      | none => objectLoop fuel depth [] (skipWhitespace rest)

def objectLoop : Nat → Nat → List (List Nat) → List Char → Except Stop (List Char)
  | 0, _, _, _ => .error .fuel
  | fuel + 1, depth, keys, rest =>
    if (skipWhitespace rest).head? ≠ some '"' then .error .failed
    else do
      let (key, rest) ← string js (skipWhitespace rest)
      if key ∈ keys then .error .failed
      else do
        let rest ← orFail (take ':' (skipWhitespace rest))
        let rest ← value fuel depth rest
        match take closeBrace (skipWhitespace rest) with
        | some rest => .ok rest
        | none =>
          let rest ← orFail (take ',' (skipWhitespace rest))
          objectLoop fuel depth (key :: keys) rest

/-- `array`, behind its bracket. -/
def array : Nat → Nat → List Char → Except Stop (List Char)
  | 0, _, _ => .error .fuel
  | fuel + 1, depth, rest =>
    if maxDepth < depth then .error .failed
    else
      match take ']' (skipWhitespace rest) with
      | some rest => .ok rest
      | none => arrayLoop fuel depth (skipWhitespace rest)

def arrayLoop : Nat → Nat → List Char → Except Stop (List Char)
  | 0, _, _ => .error .fuel
  | fuel + 1, depth, rest => do
    let rest ← value fuel depth rest
    match take ']' (skipWhitespace rest) with
    | some rest => .ok rest
    | none =>
      let rest ← orFail (take ',' (skipWhitespace rest))
      arrayLoop fuel depth rest
end

def scan (source : List Char) : Except Stop Unit := do
  let rest ← value js (3 * source.length + 1) 0 (skipWhitespace source)
  if skipWhitespace rest = [] then .ok () else .error .failed

/-- `TextDecoder` in fatal mode. -/
def decodeText (bytes : List UInt8) : Option (List Char) :=
  bytes.toByteArray.utf8Decode?.map Array.toList

def byteOrderMark : List UInt8 := [0xef, 0xbb, 0xbf]

def parseStrictJson (bytes : List UInt8) (maxBytes : Nat) : Except Stop V := do
  if maxBytes < bytes.length then .error .failed
  else if byteOrderMark.isPrefixOf bytes then .error .failed
  else do
    let text ← orFail (decodeText bytes)
    scan js text
    orFail (js.parse text)

end scanner

/-! ## What is accepted -/

/-- A sign, a fraction or an exponent is not canonical. -/
def Canonical (n : Number) : Prop :=
  n.minus = false ∧ n.fraction = none ∧ n.exponent = none ∧ decimal n.whole.chars ≤ 2 ^ 53 - 1

/-- Every code unit of the surrogates is in a pair. -/
inductive Paired : List Item → Prop where
  | nil : Paired []
  | plain (c : Char) (h : Plain c) {items : List Item} : Paired items → Paired (.plain c h :: items)
  | short (c : Char) (h : (Json.unescape c).isSome = true) {items : List Item} :
    Paired items → Paired (.short c h :: items)
  | unicode (hex : Hex) {items : List Item} : ¬isHigh hex.code → ¬isLow hex.code →
    Paired items → Paired (.unicode hex :: items)
  | pair (high low : Hex) {items : List Item} : isHigh high.code → isLow low.code →
    Paired items → Paired (.unicode high :: .unicode low :: items)

/-- What is asked of the numbers, the strings and the objects' names of a tree. -/
structure Rules (numbers : List Number) (strings : List (List Item))
    (objects : List (List (List Item))) : Prop where
  canonical : ∀ n ∈ numbers, Canonical n
  paired : ∀ items ∈ strings, Paired items
  distinct : ∀ names ∈ objects, (names.map units).Nodup

structure Strict (node : Node) : Prop where
  depth : node.depth ≤ maxDepth
  rules : Rules node.numbers node.strings node.objects

/-- A strict value between blanks. -/
def StrictText (chars : List Char) : Prop :=
  ∃ (before : Blank) (node : Node) (after : Blank),
    chars = before.chars ++ node.text ++ after.chars ∧ Strict node

/-! ## Blanks and characters -/

variable {α : Type}

theorem orFail_ok {o : Option α} {a : α} : orFail o = .ok a ↔ o = some a := by
  cases o <;> simp [orFail]

theorem orFail_ne_fuel (o : Option α) : orFail o ≠ .error .fuel := by
  cases o <;> simp [orFail]

theorem skipWhitespace_eq (rest : List Char) :
    ∃ blank : Blank, rest = blank.chars ++ skipWhitespace rest :=
  ⟨⟨rest.takeWhile Json.isSpace, fun _ hc => mem_takeWhile_imp hc⟩,
    (takeWhile_append_dropWhile).symm⟩

theorem skipWhitespace_blank (blank : Blank) (rest : List Char) :
    skipWhitespace (blank.chars ++ rest) = skipWhitespace rest :=
  dropWhile_append_of_pos blank.spaces

variable {c : Char}

theorem skipWhitespace_cons (hc : Json.isSpace c = false) (rest : List Char) :
    skipWhitespace (c :: rest) = c :: rest :=
  dropWhile_cons_of_neg (by rw [hc]; exact Bool.false_ne_true)

theorem length_skipWhitespace (rest : List Char) :
    (skipWhitespace rest).length ≤ rest.length := by
  obtain ⟨blank, hblank⟩ := skipWhitespace_eq rest
  have hlength := congrArg List.length hblank
  rw [length_append] at hlength
  omega

variable {chars rest : List Char}

theorem take_eq_some {char : Char} : take char chars = some rest ↔ chars = char :: rest := by
  cases chars with
  | nil => simp [take]
  | cons c chars =>
    rw [take]
    split
    · next h => simp [h]
    · next h => simp [h]

theorem literal_eq_some {value : List Char} :
    literal value chars = some rest ↔ chars = value ++ rest := by
  rw [literal]
  constructor
  · intro h
    split at h
    · next hvalue =>
      obtain ⟨tail, htail⟩ := List.isPrefixOf_iff_prefix.mp hvalue
      rw [← htail, drop_left] at h
      rw [← htail, Option.some.inj h]
    · exact absurd h (Option.some_ne_none rest).symm
  · intro h
    rw [h, if_pos (List.isPrefixOf_iff_prefix.mpr (prefix_append value rest)), drop_left]

/-! ## Strings -/

theorem readHexCodeUnit_eq_some {codeUnit : Nat} : readHexCodeUnit chars = some (codeUnit, rest) ↔
      ∃ hex : Hex, chars = hex.digits ++ rest ∧ codeUnit = hex.code := by
  rw [readHexCodeUnit]
  constructor
  · intro h
    split at h
    · exact absurd h (Option.some_ne_none _).symm
    · next hhex =>
      obtain ⟨hfour, hdigits⟩ := not_or.mp hhex
      obtain ⟨rfl, rfl⟩ := Prod.mk.inj (Option.some.inj h)
      refine ⟨⟨chars.take 4, of_not_not hfour, ?_⟩, (take_append_drop 4 chars).symm, rfl⟩
      exact all_eq_true.mp (Bool.eq_true_of_not_eq_false hdigits)
  · intro h
    obtain ⟨hex, rfl, rfl⟩ := h
    have htake : (hex.digits ++ rest).take 4 = hex.digits := by
      rw [← hex.four, take_left]
    have hdrop : (hex.digits ++ rest).drop 4 = rest := by
      rw [← hex.four, drop_left]
    have hall : hex.digits.all (fun c => (Json.hexValue c).isSome) = true :=
      all_eq_true.mpr hex.hexadecimal
    simp only [htake, hdrop]
    rw [if_neg (by simp [hall, hex.four])]
    rfl

theorem shortEscapes_unescape (c : Char) :
    c ∈ shortEscapes ↔ (Json.unescape c).isSome = true := by
  constructor
  · intro h
    have hall : shortEscapes.all (fun c => (Json.unescape c).isSome) = true := by decide
    exact all_eq_true.mp hall c h
  · intro h
    by_contra hc
    simp only [shortEscapes, mem_cons, not_mem_nil, or_false, not_or] at hc
    obtain ⟨h1, h2, h3, h4, h5, h6, h7, h8⟩ := hc
    simp [Json.unescape, h1, h2, h3, h4, h5, h6, h7, h8] at h

/-- What is skipped after a backslash. -/
inductive Escape : List Item → Prop where
  | short (c : Char) (h : (Json.unescape c).isSome = true) : Escape [.short c h]
  | unicode (hex : Hex) : ¬isHigh hex.code → ¬isLow hex.code → Escape [.unicode hex]
  | pair (high low : Hex) : isHigh high.code → isLow low.code →
    Escape [.unicode high, .unicode low]

variable {items : List Item}

theorem Escape.paired {tail : List Item} (h : Escape items) (htail : Paired tail) :
    Paired (items ++ tail) := by
  cases h with
  | short c h => exact .short c h htail
  | unicode hex hhigh hlow => exact .unicode hex hhigh hlow htail
  | pair high low hhigh hlow => exact .pair high low hhigh hlow htail

theorem escape_eq_some (hne : chars ≠ []) : escape chars = some rest ↔
      ∃ items, Escape items ∧ '\\' :: chars = contents items ++ rest := by
  obtain ⟨c, chars, rfl⟩ := exists_cons_of_ne_nil hne
  rw [escape]
  constructor
  · intro h
    split at h
    · next hc =>
      cases h
      exact ⟨_, .short c ((shortEscapes_unescape c).mp hc), rfl⟩
    · split at h
      · exact absurd h (Option.some_ne_none rest).symm
      · next hu =>
        rw [of_not_not hu]
        obtain ⟨⟨codeUnit, chars'⟩, hfirst, h⟩ := Option.bind_eq_some_iff.mp h
        obtain ⟨hex, rfl, rfl⟩ := readHexCodeUnit_eq_some.mp hfirst
        dsimp only at h
        split at h
        · next hhigh =>
          split at h
          · exact absurd h (Option.some_ne_none rest).symm
          · next hmark =>
            obtain ⟨⟨low, chars''⟩, hsecond, h⟩ := Option.bind_eq_some_iff.mp h
            obtain ⟨lowHex, hdrop, rfl⟩ := readHexCodeUnit_eq_some.mp hsecond
            dsimp only at h
            split at h
            · next hlow =>
              cases h
              refine ⟨_, .pair hex lowHex hhigh hlow, ?_⟩
              have hchars' : chars' = '\\' :: 'u' :: (lowHex.digits ++ rest) := by
                rw [← take_append_drop 2 chars', of_not_not hmark, hdrop]
                rfl
              rw [hchars']
              simp [contents, Item.text]
            · exact absurd h (Option.some_ne_none rest).symm
        · next hhigh =>
          split at h
          · exact absurd h (Option.some_ne_none rest).symm
          · next hlow =>
            cases h
            refine ⟨_, .unicode hex hhigh hlow, ?_⟩
            simp [contents, Item.text]
  · intro h
    obtain ⟨items, hitems, heq⟩ := h
    cases hitems with
    | short d hd =>
      obtain ⟨rfl, rfl⟩ : c = d ∧ chars = rest := by simpa [contents, Item.text] using heq
      exact if_pos ((shortEscapes_unescape c).mpr hd)
    | unicode hex hhigh hlow =>
      obtain ⟨rfl, rfl⟩ : c = 'u' ∧ chars = hex.digits ++ rest := by
        simpa [contents, Item.text] using heq
      have hfirst := readHexCodeUnit_eq_some.mpr ⟨hex, (rfl : hex.digits ++ rest = _), rfl⟩
      rw [if_neg (by decide), if_neg (by decide), hfirst]
      show (if isHigh hex.code then _ else _) = _
      rw [if_neg hhigh, if_neg hlow]
    | pair high low hhigh hlow =>
      obtain ⟨rfl, rfl⟩ : c = 'u' ∧
          chars = high.digits ++ ('\\' :: 'u' :: (low.digits ++ rest)) := by
        simpa [contents, Item.text] using heq
      have hfirst := readHexCodeUnit_eq_some.mpr
        ⟨high, (rfl : high.digits ++ ('\\' :: 'u' :: (low.digits ++ rest)) = _), rfl⟩
      have hsecond := readHexCodeUnit_eq_some.mpr ⟨low, (rfl : low.digits ++ rest = _), rfl⟩
      rw [if_neg (by decide), if_neg (by decide), hfirst]
      show (if isHigh high.code then
        (if ['\\', 'u'] ≠ ['\\', 'u'] then none
          else (readHexCodeUnit (low.digits ++ rest)).bind _) else _) = _
      rw [if_pos hhigh, if_neg (not_not.mpr rfl), hsecond]
      exact if_pos hlow

variable {fuel : Nat}

theorem stringLoop_sound (h : stringLoop fuel chars = .ok rest) :
    ∃ items, Paired items ∧ chars = contents items ++ '"' :: rest := by
  induction fuel generalizing chars with
  | zero => exact absurd h (by simp [stringLoop])
  | succ fuel ih =>
    cases chars with
    | nil => exact absurd h (by simp [stringLoop])
    | cons c chars =>
      rw [stringLoop] at h
      split at h
      · next hc =>
        cases h
        exact ⟨[], .nil, by rw [hc]; rfl⟩
      · next hquote =>
        split at h
        · exact absurd h (by simp)
        · next hcontrol =>
          split at h
          · next hbackslash =>
            obtain ⟨items, hitems, rfl⟩ := ih h
            exact ⟨_, .plain c ⟨hquote, hbackslash, Nat.le_of_not_lt hcontrol⟩ hitems, rfl⟩
          · next hbackslash =>
            rw [of_not_not hbackslash]
            obtain ⟨rest', hescape, h⟩ := bind_eq_ok.mp h
            obtain ⟨items, hitems, rfl⟩ := ih h
            by_cases hne : chars = []
            · -- behind the end of the text there is no quote
              rw [hne, orFail_ok, escape, Option.some.injEq] at hescape
              exact absurd hescape.symm (by simp)
            · obtain ⟨escaped, hescaped, heq⟩ := (escape_eq_some hne).mp (orFail_ok.mp hescape)
              refine ⟨escaped ++ items, hescaped.paired hitems, ?_⟩
              rw [heq, contents_append, append_assoc]

theorem stringLoop_escape (h : Escape items) (fuel : Nat) (tail : List Char) :
    stringLoop (fuel + 1) (contents items ++ tail) = stringLoop fuel tail := by
  obtain ⟨chars, hne, heq⟩ : ∃ chars, chars ≠ [] ∧ contents items ++ tail = '\\' :: chars := by
    cases h with
    | short c h => exact ⟨c :: tail, cons_ne_nil _ _, rfl⟩
    | unicode hex _ _ => exact ⟨'u' :: (hex.digits ++ tail), cons_ne_nil _ _, by
        simp [Item.text]⟩
    | pair high low _ _ =>
      exact ⟨'u' :: (high.digits ++ '\\' :: 'u' :: (low.digits ++ tail)), cons_ne_nil _ _, by
        simp [Item.text]⟩
  have hescape := (escape_eq_some hne).mpr ⟨items, h, heq.symm⟩
  rw [heq, stringLoop, if_neg (by decide), if_neg (by decide), if_neg (not_not.mpr rfl), hescape]
  rfl

theorem stringLoop_complete (h : Paired items) (hfuel : (contents items).length < fuel)
    (rest : List Char) : stringLoop fuel (contents items ++ '"' :: rest) = .ok rest := by
  have hstep {escaped tail : List Item} (hescaped : Escape escaped) {fuel : Nat}
      (hfuel : (contents escaped ++ contents tail).length < fuel)
      (ih : ∀ {fuel : Nat}, (contents tail).length < fuel →
        stringLoop fuel (contents tail ++ '"' :: rest) = .ok rest) :
      stringLoop fuel (contents escaped ++ (contents tail ++ '"' :: rest)) = .ok rest := by
    have hlength : 0 < (contents escaped).length := by
      cases hescaped <;> simp [Item.text]
    rw [length_append] at hfuel
    obtain ⟨fuel, rfl⟩ : ∃ n, fuel = n + 1 := ⟨fuel - 1, by omega⟩
    rw [stringLoop_escape hescaped, ih (by omega)]
  induction h generalizing fuel with
  | nil =>
    obtain ⟨fuel, rfl⟩ : ∃ n, fuel = n + 1 := ⟨fuel - 1, by omega⟩
    rfl
  | plain c hc _ ih =>
    obtain ⟨fuel, rfl⟩ : ∃ n, fuel = n + 1 := ⟨fuel - 1, by omega⟩
    rw [contents_cons, length_append] at hfuel
    rw [contents_cons, append_assoc]
    show stringLoop (fuel + 1) (c :: _) = _
    rw [stringLoop, if_neg hc.1, if_neg (Nat.not_lt.mpr hc.2.2), if_pos hc.2.1]
    refine ih ?_
    have hlength : (Item.text (.plain c hc)).length = 1 := rfl
    omega
  | short c hc _ ih =>
    rw [contents_cons, append_assoc]
    have := hstep (.short c hc) (by simpa using hfuel) ih
    simpa using this
  | unicode hex hhigh hlow _ ih =>
    have := hstep (.unicode hex hhigh hlow) (by simpa using hfuel) ih
    simpa using this
  | pair high low hhigh hlow _ ih =>
    have := hstep (.pair high low hhigh hlow) (by simpa using hfuel) ih
    simpa using this

theorem length_escape (h : escape chars = some rest) : rest.length ≤ chars.length := by
  by_cases hne : chars = []
  · rw [hne, escape, Option.some.injEq] at h
    rw [← h]
    exact Nat.zero_le _
  · obtain ⟨items, hitems, heq⟩ := (escape_eq_some hne).mp h
    have hlength := congrArg List.length heq
    have hpos : 0 < (contents items).length := by
      cases hitems <;> simp [Item.text]
    rw [length_cons, length_append] at hlength
    omega

theorem stringLoop_fuel (h : chars.length < fuel) : stringLoop fuel chars ≠ .error .fuel := by
  induction fuel generalizing chars with
  | zero => exact absurd h (Nat.not_lt_zero _)
  | succ fuel ih =>
    cases chars with
    | nil => simp [stringLoop]
    | cons c chars =>
      rw [length_cons] at h
      rw [stringLoop]
      split
      · simp
      · split
        · simp
        · split
          · exact ih (by omega)
          · cases hescape : escape chars with
            | none => exact fun heq => absurd heq (by simp [orFail, bind, Except.bind])
            | some rest =>
              have hlength := length_escape hescape
              have hrest : rest.length < fuel := by omega
              exact ih hrest

/-! ## Numbers -/

theorem roundToDouble_small {n : Nat} (h : n < 2 ^ 53) : roundToDouble n = n := by
  have hlog : Nat.log2 n - 52 = 0 := by
    by_cases hn : n = 0
    · rw [hn, Nat.log2_zero]
    · have := (Nat.log2_lt hn).mpr h
      omega
  simp [roundToDouble, hlog, Nat.mod_one]

theorem roundToDouble_large {n : Nat} (h : 2 ^ 53 ≤ n) : 2 ^ 53 ≤ roundToDouble n := by
  have hn : n ≠ 0 := by
    intro h0
    rw [h0] at h
    exact absurd h (by decide)
  have hlog : 53 ≤ Nat.log2 n := (Nat.le_log2 hn).mpr h
  obtain ⟨e, he⟩ : ∃ e, Nat.log2 n - 52 = e + 1 := ⟨Nat.log2 n - 53, by omega⟩
  -- the quotient has 53 digits
  have hquotient : 2 ^ 52 ≤ n / 2 ^ (e + 1) := by
    rw [Nat.le_div_iff_mul_le (Nat.two_pow_pos _), ← Nat.pow_add]
    have hself := Nat.log2_self_le hn
    rwa [show 52 + (e + 1) = Nat.log2 n by omega]
  have hrounded : ∀ q, 2 ^ 52 ≤ q → 2 ^ 53 ≤ q * 2 ^ (e + 1) := by
    intro q hq
    calc 2 ^ 53 = 2 ^ 52 * 2 ^ 1 := by rw [← Nat.pow_add]
      _ ≤ q * 2 ^ (e + 1) := Nat.mul_le_mul hq (Nat.pow_le_pow_right (by decide) (by omega))
  simp only [roundToDouble, he]
  apply hrounded
  split
  · exact Nat.le_succ_of_le hquotient
  · exact hquotient

theorem two_pow_le_doubleLimit : 2 ^ 53 ≤ doubleLimit :=
  Nat.pow_le_pow_right (by decide) (show 53 ≤ doubleDigits by decide)

theorem isSafeInteger_toDouble (n : Nat) :
    isSafeInteger (toDouble n) = true ↔ n ≤ 2 ^ 53 - 1 := by
  by_cases h : n < 2 ^ 53
  · have hlimit := Nat.lt_of_lt_of_le h two_pow_le_doubleLimit
    rw [toDouble, roundToDouble_small h, if_pos hlimit]
    exact decide_eq_true_iff
  · have hlarge := roundToDouble_large (Nat.le_of_not_lt h)
    rw [toDouble]
    split
    · show decide (roundToDouble n ≤ 2 ^ 53 - 1) = true ↔ _
      rw [decide_eq_true_iff]
      omega
    · exact ⟨fun hfalse => absurd hfalse Bool.false_ne_true, fun hle => absurd hle (by omega)⟩

theorem isDigit_iff (c : Char) : c.isDigit = true ↔ 0x30 ≤ c.toNat ∧ c.toNat ≤ 0x39 := by
  simp only [Char.isDigit, Bool.and_eq_true, decide_eq_true_eq, ge_iff_le, UInt32.le_iff_toNat_le]
  exact Iff.rfl

theorem not_isDigit_of_endsNumber (h : endsNumber c = true) : ¬c.isDigit = true := by
  intro hdigit
  obtain ⟨hlow, hhigh⟩ := (isDigit_iff c).mp hdigit
  simp only [endsNumber, Bool.or_eq_true, beq_iff_eq, Bool.and_eq_true, decide_eq_true_eq,
    contains_eq_mem, mem_cons, not_mem_nil, or_false] at h
  obtain ((((h | h) | h) | h) | h) | h := h
  · rw [h] at hdigit
    exact absurd hdigit (by decide)
  · rw [h] at hdigit
    exact absurd hdigit (by decide)
  · rw [h] at hdigit
    exact absurd hdigit (by decide)
  · omega
  · omega
  · omega

theorem numberToken_sound {token : List Char} (h : numberToken chars = some token) :
    ∃ whole : Digits, whole.chars = token ∧
      (whole.chars.head? = some '0' → whole.chars = ['0']) ∧
      chars = token ++ chars.drop token.length := by
  cases chars with
  | nil => exact absurd h (by simp [numberToken])
  | cons c chars =>
    rw [numberToken] at h
    split at h
    · next hzero =>
      cases h
      refine ⟨⟨[c], cons_ne_nil _ _, fun d hd => ?_⟩, rfl, fun _ =>
        congrArg (fun d => [d]) hzero, rfl⟩
      rw [mem_singleton.mp hd, hzero]
      rfl
    · next hzero =>
      split at h
      · next hrange =>
        cases h
        refine ⟨⟨c :: chars.takeWhile Char.isDigit, cons_ne_nil _ _, fun d hd => ?_⟩, rfl,
          fun hhead => absurd (Option.some.inj hhead) hzero, ?_⟩
        · obtain rfl | hd := mem_cons.mp hd
          · have hlow : '1'.toNat ≤ d.toNat := hrange.1
            have hhigh : d.toNat ≤ '9'.toNat := hrange.2
            have hone : '1'.toNat = 0x31 := rfl
            exact (isDigit_iff d).mpr ⟨by omega, hhigh⟩
          · exact mem_takeWhile_imp hd
        · have hsplit := takeWhile_append_dropWhile (p := Char.isDigit) (l := chars)
          have hdrop : chars.drop (chars.takeWhile Char.isDigit).length =
              chars.dropWhile Char.isDigit := by
            calc chars.drop (chars.takeWhile Char.isDigit).length
                = (chars.takeWhile Char.isDigit ++ chars.dropWhile Char.isDigit).drop
                    (chars.takeWhile Char.isDigit).length := by rw [hsplit]
              _ = chars.dropWhile Char.isDigit := drop_left
          rw [length_cons, drop_succ_cons, hdrop, cons_append, hsplit]
      · exact absurd h (Option.some_ne_none token).symm

theorem number_sound (h : number chars = some rest) :
    ∃ n : Number, Canonical n ∧ chars = n.text ++ rest := by
  obtain ⟨token, htoken, h⟩ := Option.bind_eq_some_iff.mp h
  obtain ⟨whole, rfl, hzero, hchars⟩ := numberToken_sound htoken
  dsimp only at h
  split at h
  · exact absurd h (Option.some_ne_none rest).symm
  · split at h
    · next hsafe =>
      refine ⟨⟨false, whole, none, none, hzero⟩,
        ⟨rfl, rfl, rfl, (isSafeInteger_toDouble _).mp hsafe⟩, ?_⟩
      rw [← Option.some.inj h]
      simpa [Number.text] using hchars
    · exact absurd h (Option.some_ne_none rest).symm

variable {n : Number}

theorem numberToken_complete (hrest : ∀ c ∈ rest.head?, endsNumber c = true) :
    numberToken (n.whole.chars ++ rest) = some n.whole.chars := by
  obtain ⟨c, digits, hwhole⟩ := exists_cons_of_ne_nil n.whole.nonempty
  have hdigits := n.whole.digits
  rw [hwhole] at hdigits
  obtain ⟨hc, hdigits⟩ := forall_mem_cons.mp hdigits
  rw [hwhole, cons_append, numberToken]
  by_cases hzero : c = '0'
  · have hone := n.noLeadingZero (by rw [hwhole, hzero]; rfl)
    rw [hwhole] at hone
    rw [if_pos hzero, (List.cons.inj hone).2]
  · have hstop : rest.takeWhile Char.isDigit = [] := by
      cases rest with
      | nil => rfl
      | cons d rest =>
        exact takeWhile_cons_of_neg (not_isDigit_of_endsNumber (hrest d rfl))
    obtain ⟨hlow, hhigh⟩ := (isDigit_iff c).mp hc
    have hne : c.toNat ≠ '0'.toNat := fun heq => hzero (Char.toNat_inj.mp heq)
    have hzero' : '0'.toNat = 0x30 := rfl
    have hrange : '1' ≤ c ∧ c ≤ '9' := by
      constructor
      · show 0x31 ≤ c.toNat
        omega
      · show c.toNat ≤ 0x39
        exact hhigh
    rw [if_neg hzero, if_pos hrange, takeWhile_append_of_pos hdigits, hstop, append_nil]

theorem number_complete (hn : Canonical n) (hrest : ∀ c ∈ rest.head?, endsNumber c = true) :
    number (n.text ++ rest) = some rest := by
  obtain ⟨hminus, hfraction, hexponent, hvalue⟩ := hn
  have htext : n.text = n.whole.chars := by
    simp [Number.text, hminus, hfraction, hexponent]
  have hnext : (rest.head?.any fun c => !endsNumber c) = false := by
    cases hhead : rest.head? with
    | none => rfl
    | some c =>
      show (!endsNumber c) = false
      rw [hrest c hhead]
      rfl
  rw [htext, number, numberToken_complete hrest]
  show (if ((n.whole.chars ++ rest).drop n.whole.chars.length).head?.any _ = true then _ else _) = _
  rw [drop_left, if_neg (by rw [hnext]; exact Bool.false_ne_true),
    if_pos ((isSafeInteger_toDouble _).mpr hvalue)]

end Orkworksd.Desktop.StrictJson
