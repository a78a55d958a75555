import Orkworksd.Lib.JsonFields

/- Reading a JSON text, and writing one over several lines.

   `read` is the grammar of RFC 8259 as serde_json reads it: UTF-8, blanks between tokens,
   escapes with surrogate pairs, no leading zeros, nothing but blanks after the value.
   Members stay in the order of the text, a name given twice stays twice, and a number is
   kept as its characters. `pretty` is what serde_json's pretty formatter writes.

   `read_pretty` says that what was written so is read back, from `readText_quote` for the
   strings and, by the recursion of `pretty`, `readValue_pretty` for the rest. The reader
   runs on a fuel: every call takes a character or goes down into a value. -/
namespace Orkworksd.Lib.Json
open List

variable {rest : List Char}

/-! ## Strings -/

def isSpace (c : Char) : Bool := c == ' ' || c == '\t' || c == '\n' || c == '\r'

def hexValue (c : Char) : Option Nat :=
  if '0' ≤ c ∧ c ≤ '9' then some (c.toNat - 0x30)
  else if 'a' ≤ c ∧ c ≤ 'f' then some (c.toNat - 0x57)
  else if 'A' ≤ c ∧ c ≤ 'F' then some (c.toNat - 0x37)
  else none

/-- Four hexadecimal digits. -/
def readHex : List Char → Option (Nat × List Char)
  | a :: b :: c :: d :: rest => do
    let a ← hexValue a
    let b ← hexValue b
    let c ← hexValue c
    let d ← hexValue d
    return (((a * 16 + b) * 16 + c) * 16 + d, rest)
  | _ => none

/-- The second half of a surrogate pair. -/
def readTrailing (leading : Nat) : List Char → Option (Char × List Char)
  | '\\' :: 'u' :: rest => do
    let (trailing, rest) ← readHex rest
    if 0xdc00 ≤ trailing ∧ trailing ≤ 0xdfff then
      return (Char.ofNat (0x10000 + (leading - 0xd800) * 0x400 + (trailing - 0xdc00)), rest)
    else none
  | _ => none

/-- What follows `\u`. -/
def readUnicode (chars : List Char) : Option (Char × List Char) := do
  let (code, rest) ← readHex chars
  if code < 0xd800 ∨ 0xdfff < code then return (Char.ofNat code, rest)
  else if code < 0xdc00 then readTrailing code rest
  else none

def unescape (c : Char) : Option Char :=
  if c = '"' ∨ c = '\\' ∨ c = '/' then some c
  else if c = 'b' then some (Char.ofNat 0x08)
  else if c = 't' then some (Char.ofNat 0x09)
  else if c = 'n' then some (Char.ofNat 0x0a)
  else if c = 'f' then some (Char.ofNat 0x0c)
  else if c = 'r' then some (Char.ofNat 0x0d)
  else none

/-- What follows a backslash. -/
def readEscape : List Char → Option (Char × List Char)
  | [] => none
  | c :: rest => if c = 'u' then readUnicode rest else (unescape c).map (·, rest)

/-- The characters up to the closing quote. -/
def readChars : Nat → List Char → Option (List Char × List Char)
  | 0, _ => none
  | _ + 1, [] => none
  | fuel + 1, c :: rest =>
    if c = '"' then some ([], rest)
    else if c = '\\' then do
      let (d, rest) ← readEscape rest
      let (chars, rest) ← readChars fuel rest
      return (d :: chars, rest)
    else if c.toNat < 0x20 then none
    else do
      let (chars, rest) ← readChars fuel rest
      return (c :: chars, rest)

/-- A string whose opening quote has been read. -/
def readText (chars : List Char) : Option (String × List Char) :=
  (readChars (chars.length + 1) chars).map (fun found => (String.ofList found.1, found.2))

/-! ## Numbers -/

def readFraction (chars : List Char) : Option (List Char × List Char) :=
  match chars with
  | [] => some ([], [])
  | c :: rest =>
    if c = '.' then
      if (rest.takeWhile Char.isDigit).isEmpty then none
      else some (c :: rest.takeWhile Char.isDigit, rest.dropWhile Char.isDigit)
    else some ([], c :: rest)

def readExponent (chars : List Char) : Option (List Char × List Char) :=
  match chars with
  | [] => some ([], [])
  | c :: rest =>
    if c = 'e' ∨ c = 'E' then
      let sign := rest.head?.toList.filter (fun s => s == '+' || s == '-')
      let rest := rest.drop sign.length
      if (rest.takeWhile Char.isDigit).isEmpty then none
      else some (c :: sign ++ rest.takeWhile Char.isDigit, rest.dropWhile Char.isDigit)
    else some ([], c :: rest)

def readNumber (chars : List Char) : Option (String × List Char) := do
  let sign := chars.head?.toList.filter (· == '-')
  let rest := chars.drop sign.length
  let whole := rest.takeWhile Char.isDigit
  if whole.isEmpty ∨ (whole.head? = some '0' ∧ whole.length ≠ 1) then none
  else do
    let (fraction, rest) ← readFraction (rest.dropWhile Char.isDigit)
    let (exponent, rest) ← readExponent rest
    return (String.ofList (sign ++ whole ++ fraction ++ exponent), rest)

/-! ## Values -/

/-- The character, after blanks. -/
def eat (c : Char) (chars : List Char) : Option (List Char) :=
  match chars.dropWhile isSpace with
  | [] => none
  | d :: rest => if d = c then some rest else none

/-- The rest of a word. -/
def eatWord (word chars : List Char) (value : Json) : Option (Json × List Char) :=
  if word.isPrefixOf chars then some (value, chars.drop word.length) else none

/-- An item before those that follow it. -/
def andItem (item : Json) (found : List Json × List Char) : List Json × List Char :=
  (item :: found.1, found.2)

def andMember (key : String) (value : Json) (found : List (String × Json) × List Char) :
    List (String × Json) × List Char :=
  ((key, value) :: found.1, found.2)

mutual
def readValue : Nat → List Char → Option (Json × List Char)
  | 0, _ => none
  | fuel + 1, chars =>
    match chars.dropWhile isSpace with
    | [] => none
    | c :: rest =>
      if c = '"' then (readText rest).map (fun found => (.string found.1, found.2))
      else if c = '[' then
        match eat ']' rest with
        | some rest => some (.array [], rest)
        | none => (readItems fuel rest).map (fun found => (.array found.1, found.2))
      else if c = Char.ofNat 0x7b then
        match eat (Char.ofNat 0x7d) rest with
        | some rest => some (.object [], rest)
        | none => (readMembers fuel rest).map (fun found => (.object found.1, found.2))
      else if c = 'n' then eatWord ['u', 'l', 'l'] rest .null
      else if c = 't' then eatWord ['r', 'u', 'e'] rest (.bool true)
      else if c = 'f' then eatWord ['a', 'l', 's', 'e'] rest (.bool false)
      else (readNumber (c :: rest)).map (fun found => (.number found.1, found.2))

/-- At least one item, and the closing bracket. -/
def readItems : Nat → List Char → Option (List Json × List Char)
  | 0, _ => none
  | fuel + 1, chars => do
    let (item, rest) ← readValue fuel chars
    match eat ',' rest with
    | some rest => (readItems fuel rest).map (andItem item)
    | none => (eat ']' rest).map ([item], ·)

/-- At least one member, and the closing brace. -/
def readMembers : Nat → List Char → Option (List (String × Json) × List Char)
  | 0, _ => none
  | fuel + 1, chars => do
    let rest ← eat '"' chars
    let (key, rest) ← readText rest
    let rest ← eat ':' rest
    let (value, rest) ← readValue fuel rest
    match eat ',' rest with
    | some rest => (readMembers fuel rest).map (andMember key value)
    | none => (eat (Char.ofNat 0x7d) rest).map ([(key, value)], ·)
end

/-- The value of a whole text. -/
def readWhole (chars : List Char) : Option Json := do
  let (value, rest) ← readValue (2 * chars.length + 1) chars
  if rest.all isSpace then some value else none

def read (bytes : List UInt8) : Option Json := do
  let chars ← bytes.toByteArray.utf8Decode?
  readWhole chars.toList

/-! ## Writing over several lines -/

/-- A new line and its indentation. -/
def newline (level : Nat) : List Char := '\n' :: List.replicate (2 * level) ' '

/-- The line of a closing bracket: an empty list has none. -/
def lastLine (empty : Bool) (level : Nat) : List Char := if empty then [] else newline level

mutual
def pretty (level : Nat) : Json → List Char
  | .array items =>
    '[' :: prettyItems (level + 1) true items ++ lastLine items.isEmpty level ++ [']']
  | .object members =>
    Char.ofNat 0x7b :: prettyMembers (level + 1) true members ++ lastLine members.isEmpty level ++
      [Char.ofNat 0x7d]
  | .null => ['n', 'u', 'l', 'l']
  | .bool value => if value then ['t', 'r', 'u', 'e'] else ['f', 'a', 'l', 's', 'e']
  | .number text => text.toList
  | .string text => JsonText.quote text.toList

/-- The items, each on a line and each but the first after a comma. -/
def prettyItems (level : Nat) (first : Bool) : List Json → List Char
  | [] => []
  | item :: items =>
    (if first then [] else [',']) ++ newline level ++ item.pretty level ++
      prettyItems level false items

def prettyMembers (level : Nat) (first : Bool) : List (String × Json) → List Char
  | [] => []
  | (key, value) :: members =>
    (if first then [] else [',']) ++ newline level ++ JsonText.quote key.toList ++ ':' :: ' ' ::
      value.pretty level ++ prettyMembers level false members
end

def prettyBytes (v : Json) : List UInt8 := JsonText.encode (v.pretty 0)

/-! ## Strings are read back -/

theorem hexValue_hexDigit : ∀ n < 16, hexValue (JsonText.hexDigit n) = some n := by decide

theorem unescape_short : ∀ p ∈ JsonText.short, p.2 ≠ 'u' ∧ unescape p.2 = some p.1 := by decide

variable {c : Char}

theorem le_of_escape_self (h : JsonText.escape c = [c]) : 0x20 ≤ c.toNat := by
  apply Nat.le_of_not_lt
  intro hlt
  have hlength := congrArg List.length h
  rw [length_singleton] at hlength
  unfold JsonText.escape at hlength
  repeat' split at hlength
  all_goals first
    | exact absurd hlength (by decide)
    | simp at hlength

theorem readChars_escape (c : Char) (fuel : Nat) (rest : List Char) :
    readChars (fuel + 1) (JsonText.escape c ++ rest) =
      (readChars fuel rest).map (fun found => (c :: found.1, found.2)) := by
  have hmap (found : Option (List Char × List Char)) :
      (do let (chars, rest) ← found; return (c :: chars, rest)) =
        found.map (fun found => (c :: found.1, found.2)) := by
    cases found with
    | none => rfl
    | some found => rfl
  rcases JsonText.escape_cases c with ⟨x, heq, hx⟩ | ⟨hcontrol, heq⟩ | ⟨heq, hquote, hslash⟩
  · obtain ⟨hu, hshort⟩ := unescape_short _ hx
    rw [heq, cons_append, readChars, if_neg (by decide), if_pos rfl, ← hmap]
    simp only [cons_append, nil_append, readEscape, if_neg hu, hshort]
    rfl
  · have hcode : (((0 * 16 + 0) * 16 + c.toNat / 16) * 16 + c.toNat % 16) = c.toNat := by omega
    rw [heq, cons_append, readChars, if_neg (by decide), if_pos rfl, ← hmap]
    have hhex : readHex ('0' :: '0' :: JsonText.hexDigit (c.toNat / 16) ::
        JsonText.hexDigit (c.toNat % 16) :: rest) = some (c.toNat, rest) := by
      rw [readHex, hexValue_hexDigit _ (by omega), hexValue_hexDigit _ (by omega)]
      show some ((((0 * 16 + 0) * 16 + c.toNat / 16) * 16 + c.toNat % 16), rest) = _
      rw [hcode]
    have hescape : readEscape ('u' :: '0' :: '0' :: JsonText.hexDigit (c.toNat / 16) ::
        JsonText.hexDigit (c.toNat % 16) :: rest) = some (c, rest) := by
      show readUnicode _ = _
      rw [readUnicode, hhex]
      show (if c.toNat < 0xd800 ∨ 0xdfff < c.toNat then some (Char.ofNat c.toNat, rest) else _) = _
      rw [if_pos (.inl (by omega)), Char.ofNat_toNat]
    simp only [cons_append, nil_append, hescape]
    rfl
  · rw [heq, cons_append, nil_append, readChars, if_neg hquote, if_neg hslash,
      if_neg (Nat.not_lt.mpr (le_of_escape_self heq))]
    exact hmap _

theorem readChars_quoted {fuel : Nat} (chars : List Char) (h : chars.length < fuel)
    (rest : List Char) :
    readChars fuel (chars.flatMap JsonText.escape ++ '"' :: rest) = some (chars, rest) := by
  induction chars generalizing fuel with
  | nil =>
    cases fuel with
    | zero => exact absurd h (Nat.not_lt_zero _)
    | succ fuel => rfl
  | cons c chars ih =>
    cases fuel with
    | zero => exact absurd h (Nat.not_lt_zero _)
    | succ fuel =>
      rw [flatMap_cons, append_assoc, readChars_escape,
        ih (Nat.lt_of_succ_lt_succ h), Option.map_some]

theorem length_le_flatMap_escape (chars : List Char) :
    chars.length ≤ (chars.flatMap JsonText.escape).length := by
  induction chars with
  | nil => exact Nat.le_refl _
  | cons c chars ih =>
    have hpos : 0 < (JsonText.escape c).length := by
      rcases JsonText.escape_cases c with ⟨x, heq, -⟩ | ⟨-, heq⟩ | ⟨heq, -⟩
      all_goals
        rw [heq]
        exact Nat.succ_pos _
    rw [flatMap_cons, length_append, length_cons]
    omega

theorem readText_quoted (text : String) (rest : List Char) :
    readText (text.toList.flatMap JsonText.escape ++ '"' :: rest) = some (text, rest) := by
  unfold readText
  rw [readChars_quoted, Option.map_some, String.ofList_toList]
  have hlength := length_le_flatMap_escape text.toList
  rw [length_append]
  omega

/-! ## Numbers are read back -/

/-- What may follow a number. -/
def Stops (rest : List Char) : Prop :=
  ∀ c tail, rest = c :: tail → c.isDigit = false ∧ c ≠ '.' ∧ c ≠ 'e' ∧ c ≠ 'E'

theorem stops_cons (h : c = ',' ∨ c = '\n') (tail : List Char) : Stops (c :: tail) := by
  intro d tail' heq
  cases heq
  rcases h with rfl | rfl
  · decide
  · decide

theorem readFraction_stops (h : Stops rest) :
    readFraction rest = some ([], rest) := by
  cases rest with
  | nil => rfl
  | cons c tail => rw [readFraction, if_neg (h c tail rfl).2.1]

theorem readExponent_stops (h : Stops rest) :
    readExponent rest = some ([], rest) := by
  cases rest with
  | nil => rfl
  | cons c tail =>
    rw [readExponent, if_neg]
    intro hor
    cases hor with
    | inl he => exact (h c tail rfl).2.2.1 he
    | inr hE => exact (h c tail rfl).2.2.2 hE

variable (n : Nat)

theorem head_toDigits : (Nat.toDigits 10 n).head? = some '0' → n = 0 := by
  induction n using Nat.strongRecOn with
  | ind n ih =>
    by_cases hlt : n < 10
    · clear ih
      rw [Nat.toDigits_of_lt_base hlt]
      revert n
      decide
    · intro hhead
      rw [Nat.toDigits_of_base_le (by decide) (Nat.le_of_not_lt hlt),
        List.head?_append_of_ne_nil _ Nat.toDigits_ne_nil] at hhead
      have hzero := ih (n / 10) (by omega) hhead
      omega

theorem span_digits {digits : List Char} (hdigits : ∀ c ∈ digits, c.isDigit = true)
    (h : Stops rest) : (digits ++ rest).takeWhile Char.isDigit = digits ∧
      (digits ++ rest).dropWhile Char.isDigit = rest := by
  rw [takeWhile_append_of_pos hdigits, dropWhile_append_of_pos hdigits]
  cases rest with
  | nil => exact ⟨append_nil _, rfl⟩
  | cons c tail =>
    have hc : ¬c.isDigit = true := by
      rw [(h c tail rfl).1]
      exact Bool.false_ne_true
    rw [takeWhile_cons_of_neg hc, dropWhile_cons_of_neg hc]
    exact ⟨append_nil _, rfl⟩

theorem readNumber_ofNat (h : Stops rest) :
    readNumber ((toString n).toList ++ rest) = some (toString n, rest) := by
  have hdigits := (ofNat_digits n).2
  have hone : (toString n).toList.head? = some '0' → (toString n).toList.length = 1 := by
    rw [toList_toString]
    intro hhead
    rw [head_toDigits n hhead]
    rfl
  have hstring : String.ofList (toString n).toList = toString n := String.ofList_toList
  generalize htext : toString n = text at hdigits hone hstring
  cases hchars : text.toList with
  | nil => exact absurd hchars (by rw [← htext]; exact (ofNat_digits n).1)
  | cons c digits =>
    rw [hchars] at hdigits hone hstring
    have hminus : (c == '-') = false := by
      apply beq_false_of_ne
      intro heq
      have hc := hdigits c mem_cons_self
      rw [heq] at hc
      exact absurd hc (by decide)
    have hsign : ((c :: digits) ++ rest).head?.toList.filter (· == '-') = [] := by
      show [c].filter _ = []
      rw [filter_cons_of_neg (by rw [hminus]; exact Bool.false_ne_true)]
      rfl
    obtain ⟨htake, hdrop⟩ := span_digits hdigits h
    have hwhole : ¬((c :: digits).isEmpty = true ∨
        ((c :: digits).head? = some '0' ∧ (c :: digits).length ≠ 1)) := by
      intro hor
      cases hor with
      | inl hempty => exact Bool.false_ne_true hempty
      | inr hzero => exact hzero.2 (hone hzero.1)
    unfold readNumber
    simp only [hsign, length_nil, drop_zero, htake, hdrop, if_neg hwhole,
      readFraction_stops h, nil_append]
    show (do let (exponent, rest) ← readExponent rest; _) = _
    rw [readExponent_stops h]
    show some (String.ofList (c :: digits ++ [] ++ []), rest) = _
    rw [append_nil, append_nil, hstring]

/-! ## Values are read back -/

mutual
/-- Every number in the value is a natural number. -/
def Counting : Json → Prop
  | .number text => ∃ n : Nat, text = toString n
  | .array items => CountingItems items
  | .object members => CountingMembers members
  | _ => True

def CountingItems : List Json → Prop
  | [] => True
  | item :: items => item.Counting ∧ CountingItems items

def CountingMembers : List (String × Json) → Prop
  | [] => True
  | (_, value) :: members => value.Counting ∧ CountingMembers members
end

mutual
/-- How many calls reading the value takes. -/
def weight : Json → Nat
  | .array items => 1 + weightItems items
  | .object members => 1 + weightMembers members
  | _ => 1

def weightItems : List Json → Nat
  | [] => 0
  | item :: items => 1 + item.weight + weightItems items

def weightMembers : List (String × Json) → Nat
  | [] => 0
  | (_, value) :: members => 1 + value.weight + weightMembers members
end

variable (level : Nat)

theorem newline_space : ∀ c ∈ newline level, isSpace c = true := by
  intro c hc
  cases mem_cons.mp hc with
  | inl heq => rw [heq]; rfl
  | inr hmem => rw [(mem_replicate.mp hmem).2]; rfl

theorem dropWhile_newline (rest : List Char) :
    (newline level ++ rest).dropWhile isSpace = rest.dropWhile isSpace :=
  dropWhile_append_of_pos (newline_space level)

theorem eat_newline (c : Char) (level : Nat) (rest : List Char) :
    eat c (newline level ++ rest) = eat c rest := by
  rw [eat, eat, dropWhile_newline]

theorem eat_cons (h : isSpace c = false) (rest : List Char) : eat c (c :: rest) = some rest := by
  rw [eat, dropWhile_cons_of_neg (by rw [h]; exact Bool.false_ne_true)]
  exact if_pos rfl

theorem eat_other {d : Char} (h : isSpace d = false) (hne : d ≠ c) (rest : List Char) :
    eat c (d :: rest) = none := by
  rw [eat, dropWhile_cons_of_neg (by rw [h]; exact Bool.false_ne_true)]
  exact if_neg hne

theorem readValue_newline (fuel level : Nat) (rest : List Char) :
    readValue fuel (newline level ++ rest) = readValue fuel rest := by
  cases fuel with
  | zero => rfl
  | succ fuel => rw [readValue, readValue, dropWhile_newline]

theorem readValue_space (fuel : Nat) (rest : List Char) :
    readValue fuel (' ' :: rest) = readValue fuel rest := by
  cases fuel with
  | zero => rfl
  | succ fuel => rw [readValue, readValue]; rfl

theorem digit_cases (h : c.isDigit = true) : isSpace c = false ∧ c ≠ '"' ∧ c ≠ '[' ∧
    c ≠ Char.ofNat 0x7b ∧ c ≠ 'n' ∧ c ≠ 't' ∧ c ≠ 'f' ∧ c ≠ ']' := by
  have hne : ∀ d : Char, d.isDigit = false → c ≠ d := by
    intro d hd heq
    rw [heq, hd] at h
    exact Bool.false_ne_true h
  refine ⟨?_, hne _ (by decide), hne _ (by decide), hne _ (by decide), hne _ (by decide),
    hne _ (by decide), hne _ (by decide), hne _ (by decide)⟩
  have hspace : ∀ d : Char, d.isDigit = false → (c == d) = false :=
    fun d hd => beq_false_of_ne (hne d hd)
  rw [isSpace, hspace ' ' (by decide), hspace '\t' (by decide), hspace '\n' (by decide),
    hspace '\r' (by decide)]
  rfl

variable (v : Json)

theorem pretty_head (hv : v.Counting) (level : Nat) :
    ∃ c tail, v.pretty level = c :: tail ∧ isSpace c = false ∧ c ≠ ']' := by
  cases v with
  | null => exact ⟨_, _, rfl, by decide, by decide⟩
  | bool value =>
    cases value with
    | true => exact ⟨_, _, rfl, by decide, by decide⟩
    | false => exact ⟨_, _, rfl, by decide, by decide⟩
  | number text =>
    obtain ⟨n, rfl⟩ := hv
    obtain ⟨hne, hdigits⟩ := ofNat_digits n
    cases hchars : (toString n).toList with
    | nil => exact absurd hchars hne
    | cons c digits =>
      obtain ⟨hspace, -, -, -, -, -, -, hclose⟩ :=
        digit_cases (hdigits c (by rw [hchars]; exact mem_cons_self))
      exact ⟨c, digits, hchars, hspace, hclose⟩
  | string text => exact ⟨_, _, rfl, by decide, by decide⟩
  | array items => exact ⟨_, _, rfl, by decide, by decide⟩
  | object members => exact ⟨_, _, rfl, by decide, by decide⟩

theorem readValue_ofNat (fuel : Nat) (h : Stops rest) :
    readValue (fuel + 1) ((toString n).toList ++ rest) = some (.number (toString n), rest) := by
  have hread := readNumber_ofNat n h
  obtain ⟨hne, hdigits⟩ := ofNat_digits n
  cases hchars : (toString n).toList with
  | nil => exact absurd hchars hne
  | cons c digits =>
    rw [hchars] at hread
    obtain ⟨hspace, hquote, harray, hobject, hnull, htrue, hfalse, -⟩ :=
      digit_cases (hdigits c (by rw [hchars]; exact mem_cons_self))
    rw [readValue, cons_append, dropWhile_cons_of_neg (by rw [hspace]; exact Bool.false_ne_true)]
    simp only [if_neg hquote, if_neg harray, if_neg hobject, if_neg hnull, if_neg htrue,
      if_neg hfalse]
    rw [← cons_append, hread, Option.map_some]

section steps
variable {fuel : Nat} {chars after rest : List Char} {item value : Json} {key : String}

theorem readItems_last (h : readValue fuel chars = some (item, rest))
    (hlast : eat ',' rest = none) :
    readItems (fuel + 1) chars = (eat ']' rest).map ([item], ·) := by
  rw [readItems, h]
  show (match eat ',' rest with
    | some rest => (readItems fuel rest).map (andItem item)
    | none => (eat ']' rest).map ([item], ·)) = _
  rw [hlast]

theorem readItems_more (h : readValue fuel chars = some (item, rest))
    (hmore : eat ',' rest = some after) :
    readItems (fuel + 1) chars =
      (readItems fuel after).map (andItem item) := by
  rw [readItems, h]
  show (match eat ',' rest with
    | some rest => (readItems fuel rest).map (andItem item)
    | none => (eat ']' rest).map ([item], ·)) = _
  rw [hmore]

/-- The name and the value of a member, up to the comma. -/
def Member (fuel : Nat) (chars : List Char) (key : String) (value : Json) (rest : List Char) :
    Prop :=
  ∃ opened named colon, eat '"' chars = some opened ∧ readText opened = some (key, named) ∧
    eat ':' named = some colon ∧ readValue fuel colon = some (value, rest)

theorem readMembers_member (h : Member fuel chars key value rest) :
    readMembers (fuel + 1) chars = match eat ',' rest with
      | some rest => (readMembers fuel rest).map (andMember key value)
      | none => (eat (Char.ofNat 0x7d) rest).map ([(key, value)], ·) := by
  obtain ⟨opened, named, colon, hopened, hnamed, hcolon, hvalue⟩ := h
  rw [readMembers, hopened]
  simp only [Option.bind_eq_bind, Option.bind_some, hnamed, hcolon, hvalue]

end steps

/-- What follows an item or a member: a comma, or the line of the closing bracket. -/
theorem stops_more {text : List Char} (h : text = [] ∨ ∃ more, text = ',' :: more) (last : Nat)
    (rest : List Char) : Stops (text ++ newline last ++ rest) := by
  rcases h with rfl | ⟨more, rfl⟩
  · exact stops_cons (.inr rfl) _
  · exact stops_cons (.inl rfl) _

theorem prettyItems_more (items : List Json) :
    prettyItems level false items = [] ∨ ∃ more, prettyItems level false items = ',' :: more := by
  cases items with
  | nil => exact .inl rfl
  | cons item items => exact .inr ⟨_, rfl⟩

theorem prettyMembers_more (members : List (String × Json)) :
    prettyMembers level false members = [] ∨
      ∃ more, prettyMembers level false members = ',' :: more := by
  cases members with
  | nil => exact .inl rfl
  | cons member members => exact .inr ⟨_, rfl⟩

mutual
theorem readValue_pretty (v : Json) (hv : v.Counting) (level : Nat) {fuel : Nat}
    (hfuel : v.weight ≤ fuel) {rest : List Char} (h : Stops rest) :
    readValue fuel (v.pretty level ++ rest) = some (v, rest) := by
  cases fuel with
  | zero => cases v <;> exact absurd hfuel (by simp [weight])
  | succ fuel =>
    match v with
    | .null => rfl
    | .bool true => rfl
    | .bool false => rfl
    | .number text =>
      obtain ⟨n, rfl⟩ := hv
      exact readValue_ofNat n fuel h
    | .string text =>
      show (readText (text.toList.flatMap JsonText.escape ++ ['"'] ++ rest)).map _ = _
      rw [append_assoc]
      exact congrArg (Option.map _) (readText_quoted text rest)
    | .array [] => rfl
    | .object [] => rfl
    | .array (item :: items) =>
      have hweight : weightItems (item :: items) ≤ fuel := by
        rw [weight] at hfuel
        omega
      have hitems := readItems_pretty item items hv (level + 1) level hweight rest
      obtain ⟨c, tail, hhead, hspace, hclose⟩ := pretty_head item hv.1 (level + 1)
      have hopen : eat ']' (prettyItems (level + 1) true (item :: items) ++ newline level ++
          ']' :: rest) = none := by
        rw [prettyItems, if_pos rfl, nil_append, append_assoc, append_assoc,
          append_assoc, eat_newline, hhead, cons_append]
        exact eat_other hspace hclose _
      have htext : (Json.array (item :: items)).pretty level ++ rest = '[' ::
          (prettyItems (level + 1) true (item :: items) ++ newline level ++ ']' :: rest) := by
        show '[' :: (prettyItems _ true _ ++ newline level ++ [']'] ++ rest) = _
        rw [append_assoc _ [']'] rest]
        rfl
      rw [htext]
      show (match eat ']' (prettyItems (level + 1) true (item :: items) ++ newline level ++
        ']' :: rest) with | some rest => _ | none => _) = _
      rw [hopen]
      show Option.map _ (readItems fuel _) = _
      rw [hitems, Option.map_some]
    | .object ((key, value) :: members) =>
      have hweight : weightMembers ((key, value) :: members) ≤ fuel := by
        rw [weight] at hfuel
        omega
      have hmembers := readMembers_pretty key value members hv (level + 1) level hweight rest
      have hopen : eat (Char.ofNat 0x7d) (prettyMembers (level + 1) true
          ((key, value) :: members) ++ newline level ++ Char.ofNat 0x7d :: rest) = none := by
        rw [prettyMembers, if_pos rfl, nil_append, append_assoc, append_assoc,
          append_assoc, append_assoc, eat_newline]
        exact eat_other (by decide) (by decide) _
      have htext : (Json.object ((key, value) :: members)).pretty level ++ rest =
          Char.ofNat 0x7b :: (prettyMembers (level + 1) true ((key, value) :: members) ++
            newline level ++ Char.ofNat 0x7d :: rest) := by
        show Char.ofNat 0x7b :: (prettyMembers _ true _ ++ newline level ++ [Char.ofNat 0x7d] ++
          rest) = _
        rw [append_assoc _ [Char.ofNat 0x7d] rest]
        rfl
      rw [htext]
      show (match eat (Char.ofNat 0x7d) (prettyMembers (level + 1) true ((key, value) :: members) ++
        newline level ++ Char.ofNat 0x7d :: rest) with | some rest => _ | none => _) = _
      rw [hopen]
      show Option.map _ (readMembers fuel _) = _
      rw [hmembers, Option.map_some]
termination_by fuel

theorem readItems_pretty (item : Json) (items : List Json) (h : CountingItems (item :: items))
    (level last : Nat) {fuel : Nat} (hfuel : weightItems (item :: items) ≤ fuel)
    (rest : List Char) :
    readItems fuel (prettyItems level true (item :: items) ++ newline last ++ ']' :: rest) =
      some (item :: items, rest) := by
  cases fuel with
  | zero => exact absurd hfuel (by rw [weightItems]; omega)
  | succ fuel =>
    rw [weightItems] at hfuel
    have hweight : item.weight ≤ fuel := by omega
    have hitem := readValue_pretty item h.1 level hweight
      (stops_more (prettyItems_more level items) last (']' :: rest))
    have htext : prettyItems level true (item :: items) ++ newline last ++ ']' :: rest =
        newline level ++ (item.pretty level ++
          (prettyItems level false items ++ newline last ++ ']' :: rest)) := by
      rw [prettyItems, if_pos rfl, nil_append]
      simp only [append_assoc]
    have hread : readValue fuel (prettyItems level true (item :: items) ++ newline last ++
        ']' :: rest) =
          some (item, prettyItems level false items ++ newline last ++ ']' :: rest) := by
      rw [htext, readValue_newline, hitem]
    match items with
    | [] =>
      have hlast : eat ',' (newline last ++ ']' :: rest) = none := by
        rw [eat_newline, eat_other (by decide) (by decide)]
      rw [readItems_last hread hlast]
      show Option.map _ (eat ']' (newline last ++ ']' :: rest)) = _
      rw [eat_newline, eat_cons (by decide), Option.map_some]
    | next :: items =>
      have hlater : weightItems (next :: items) ≤ fuel := by omega
      have hrest := readItems_pretty next items h.2 level last hlater rest
      have hcomma : prettyItems level false (next :: items) ++ newline last ++ ']' :: rest =
          ',' :: (prettyItems level true (next :: items) ++ newline last ++ ']' :: rest) := rfl
      rw [hcomma] at hread
      rw [readItems_more hread (eat_cons (by decide) _), hrest, Option.map_some]
      rfl
termination_by fuel

theorem readMembers_pretty (key : String) (value : Json) (members : List (String × Json))
    (h : CountingMembers ((key, value) :: members)) (level last : Nat) {fuel : Nat}
    (hfuel : weightMembers ((key, value) :: members) ≤ fuel) (rest : List Char) :
    readMembers fuel (prettyMembers level true ((key, value) :: members) ++ newline last ++
      Char.ofNat 0x7d :: rest) = some ((key, value) :: members, rest) := by
  cases fuel with
  | zero => exact absurd hfuel (by rw [weightMembers]; omega)
  | succ fuel =>
    rw [weightMembers] at hfuel
    have hweight : value.weight ≤ fuel := by omega
    have hvalue := readValue_pretty value h.1 level hweight
      (stops_more (prettyMembers_more level members) last (Char.ofNat 0x7d :: rest))
    have htext : prettyMembers level true ((key, value) :: members) ++ newline last ++
        Char.ofNat 0x7d :: rest =
        newline level ++ '"' :: (key.toList.flatMap JsonText.escape ++ '"' :: ':' :: ' ' ::
          (value.pretty level ++ (prettyMembers level false members ++ newline last ++
            Char.ofNat 0x7d :: rest))) := by
      rw [prettyMembers, if_pos rfl, nil_append, JsonText.quote]
      simp only [append_assoc, cons_append, nil_append]
    have hmember : Member fuel (prettyMembers level true ((key, value) :: members) ++
        newline last ++ Char.ofNat 0x7d :: rest) key value
        (prettyMembers level false members ++ newline last ++ Char.ofNat 0x7d :: rest) := by
      rw [htext]
      have hopen (text : List Char) : eat '"' (newline level ++ '"' :: text) = some text := by
        rw [eat_newline, eat_cons (by decide)]
      have hcolon (text : List Char) : eat ':' (':' :: text) = some text := eat_cons (by decide) _
      refine ⟨_, _, _, hopen _, readText_quoted key _, hcolon _, ?_⟩
      rw [readValue_space, hvalue]
    rw [readMembers_member hmember]
    match members with
    | [] =>
      show (match eat ',' (newline last ++ Char.ofNat 0x7d :: rest) with
        | some rest => (readMembers fuel rest).map (andMember key value)
        | none => (eat (Char.ofNat 0x7d) (newline last ++ Char.ofNat 0x7d :: rest)).map
          ([(key, value)], ·)) = _
      rw [eat_newline, eat_newline, eat_other (by decide) (by decide), eat_cons (by decide),
        Option.map_some]
    | (next, value') :: members =>
      have hlater : weightMembers ((next, value') :: members) ≤ fuel := by omega
      have hrest := readMembers_pretty next value' members h.2 level last hlater rest
      have hcomma : prettyMembers level false ((next, value') :: members) ++ newline last ++
          Char.ofNat 0x7d :: rest = ',' :: (prettyMembers level true ((next, value') :: members) ++
            newline last ++ Char.ofNat 0x7d :: rest) := rfl
      rw [hcomma, eat_cons (by decide)]
      show Option.map _ (readMembers fuel _) = _
      rw [hrest, Option.map_some]
      rfl
termination_by fuel
end

mutual
theorem weight_le (v : Json) (hv : v.Counting) (level : Nat) :
    v.weight ≤ 2 * (v.pretty level).length := by
  match v with
  | .null =>
    show 1 ≤ 2 * 4
    decide
  | .bool true =>
    show 1 ≤ 2 * 4
    decide
  | .bool false =>
    show 1 ≤ 2 * 5
    decide
  | .number text =>
    obtain ⟨n, rfl⟩ := hv
    have hpos := length_pos_of_ne_nil (ofNat_digits n).1
    show 1 ≤ 2 * (toString n).toList.length
    omega
  | .string text =>
    show 1 ≤ 2 * (text.toList.flatMap JsonText.escape ++ ['"']).length.succ
    omega
  | .array items =>
    have hitems := weightItems_le items hv (level + 1) true
    rw [weight, pretty]
    simp only [length_append, length_cons, length_nil]
    omega
  | .object members =>
    have hmembers := weightMembers_le members hv (level + 1) true
    rw [weight, pretty]
    simp only [length_append, length_cons, length_nil]
    omega

theorem weightItems_le (items : List Json) (h : CountingItems items) (level : Nat) (first : Bool) :
    weightItems items ≤ 2 * (prettyItems level first items).length := by
  match items with
  | [] => exact Nat.zero_le _
  | item :: items =>
    have hitem := weight_le item h.1 level
    have hitems := weightItems_le items h.2 level false
    rw [weightItems, prettyItems, newline]
    simp only [length_append, length_cons]
    omega

theorem weightMembers_le (members : List (String × Json)) (h : CountingMembers members)
    (level : Nat) (first : Bool) :
    weightMembers members ≤ 2 * (prettyMembers level first members).length := by
  match members with
  | [] => exact Nat.zero_le _
  | (key, value) :: members =>
    have hvalue := weight_le value h.1 level
    have hmembers := weightMembers_le members h.2 level false
    rw [weightMembers, prettyMembers, newline]
    simp only [length_append, length_cons]
    omega
end

theorem read_pretty (hv : v.Counting) : read v.prettyBytes = some v := by
  have hchars : v.prettyBytes.toByteArray.utf8Decode? = some (v.pretty 0).toArray :=
    List.utf8Decode?_utf8Encode
  have hfuel := weight_le v hv 0
  have hend : Stops [] := fun c tail h => nomatch h
  have hvalue := readValue_pretty v hv 0 (Nat.le_succ_of_le hfuel) hend
  rw [append_nil] at hvalue
  rw [read, hchars]
  show readWhole (v.pretty 0) = _
  rw [readWhole, hvalue]
  rfl

end Orkworksd.Lib.Json
