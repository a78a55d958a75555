import Orkworksd.Lib.JsonRead

/- The grammar of RFC 8259 as syntax trees.

   A tree holds all that its text does, blanks and escapes as they are written, so `text` is
   a function and a text is of the grammar when a tree has it (`IsText`). What the grammar
   asks of the characters is asked where a tree is built: there is no tree of another text.

   `numbers`, `strings` and `objects` are the parts of a tree that a stricter reader has its
   own rules for, at every depth; `units` are the code units of UTF-16 that a string denotes. -/
namespace Orkworksd.Lib.JsonGrammar

/-! ## The leaves -/

/-- Blanks between tokens. -/
structure Blank where
  chars : List Char
  spaces : ∀ c ∈ chars, Json.isSpace c = true

def Blank.nil : Blank := ⟨[], fun _ h => absurd h List.not_mem_nil⟩

def Blank.append (x y : Blank) : Blank :=
  ⟨x.chars ++ y.chars, fun c hc => (List.mem_append.mp hc).elim (x.spaces c) (y.spaces c)⟩

def Plain (c : Char) : Prop := c ≠ '"' ∧ c ≠ '\\' ∧ 0x20 ≤ c.toNat

instance (c : Char) : Decidable (Plain c) :=
  inferInstanceAs (Decidable (c ≠ '"' ∧ c ≠ '\\' ∧ 0x20 ≤ c.toNat))

/-- Four hexadecimal digits. -/
structure Hex where
  digits : List Char
  four : digits.length = 4
  hexadecimal : ∀ c ∈ digits, (Json.hexValue c).isSome = true

def Hex.code (hex : Hex) : Nat :=
  hex.digits.foldl (fun n c => 16 * n + (Json.hexValue c).getD 0) 0

/-- A character of a string: as it is, after a backslash, or as a code unit. -/
inductive Item where
  | plain (c : Char) (h : Plain c)
  | short (c : Char) (h : (Json.unescape c).isSome = true)
  | unicode (hex : Hex)

def Item.text : Item → List Char
  | .plain c _ => [c]
  | .short c _ => ['\\', c]
  | .unicode hex => '\\' :: 'u' :: hex.digits

/-- The code units of a character. -/
def utf16 (c : Char) : List Nat :=
  if c.toNat < 0x10000 then [c.toNat]
  else [0xd800 + (c.toNat - 0x10000) / 0x400, 0xdc00 + (c.toNat - 0x10000) % 0x400]

def Item.units : Item → List Nat
  | .plain c _ => utf16 c
  | .short c _ => (Json.unescape c).toList.flatMap utf16
  | .unicode hex => [hex.code]

/-- What stands between the quotes. -/
def contents (items : List Item) : List Char := items.flatMap Item.text

@[simp] theorem contents_nil : contents [] = [] := rfl

@[simp] theorem contents_cons (item : Item) (items : List Item) :
    contents (item :: items) = item.text ++ contents items := rfl

@[simp] theorem contents_append (x y : List Item) :
    contents (x ++ y) = contents x ++ contents y := List.flatMap_append

def quoted (items : List Item) : List Char := '"' :: contents items ++ ['"']

def units (items : List Item) : List Nat := items.flatMap Item.units

inductive Word where
  | true
  | false
  | null

def Word.text : Word → List Char
  | .true => ['t', 'r', 'u', 'e']
  | .false => ['f', 'a', 'l', 's', 'e']
  | .null => ['n', 'u', 'l', 'l']

/-- One or more digits. -/
structure Digits where
  chars : List Char
  nonempty : chars ≠ []
  digits : ∀ c ∈ chars, c.isDigit = true

structure Exponent where
  letter : Char
  sign : Option Char
  digits : Digits
  isLetter : letter = 'e' ∨ letter = 'E'
  isSign : ∀ c ∈ sign, c = '+' ∨ c = '-'

structure Number where
  minus : Bool
  whole : Digits
  fraction : Option Digits
  exponent : Option Exponent
  noLeadingZero : whole.chars.head? = some '0' → whole.chars = ['0']

def Number.text (n : Number) : List Char :=
  (if n.minus then ['-'] else []) ++ n.whole.chars ++
    (n.fraction.map (fun f => '.' :: f.chars)).getD [] ++
    (n.exponent.map (fun e => e.letter :: e.sign.toList ++ e.digits.chars)).getD []

/-! ## The trees -/

/-- A member's name and what stands between the name and the value. -/
structure Key where
  before : Blank
  items : List Item
  after : Blank
  next : Blank

def Key.text (key : Key) : List Char :=
  key.before.chars ++ quoted key.items ++ key.after.chars ++ ':' :: key.next.chars

mutual
inductive Node where
  | word (word : Word)
  | number (number : Number)
  | string (items : List Item)
  | emptyArray (blank : Blank)
  | array (elements : Elements)
  | emptyObject (blank : Blank)
  | object (members : ObjectMembers)

/-- The items of an array that has some, each with the blanks around it. -/
inductive Elements where
  | last (before : Blank) (item : Node) (after : Blank)
  | more (before : Blank) (item : Node) (after : Blank) (rest : Elements)

inductive ObjectMembers where
  | last (key : Key) (value : Node) (after : Blank)
  | more (key : Key) (value : Node) (after : Blank) (rest : ObjectMembers)
end

/-- The braces, written by their code. -/
def brace : Char := Char.ofNat 0x7b

def closeBrace : Char := Char.ofNat 0x7d

mutual
def Node.text : Node → List Char
  | .word word => word.text
  | .number number => number.text
  | .string items => quoted items
  | .emptyArray blank => '[' :: blank.chars ++ [']']
  | .array elements => '[' :: elements.text
  | .emptyObject blank => brace :: blank.chars ++ [closeBrace]
  | .object members => brace :: members.text

/-- With the bracket that closes the array. -/
def Elements.text : Elements → List Char
  | .last before item after => before.chars ++ item.text ++ after.chars ++ [']']
  | .more before item after rest => before.chars ++ item.text ++ after.chars ++ ',' :: rest.text

def ObjectMembers.text : ObjectMembers → List Char
  | .last key value after => key.text ++ value.text ++ after.chars ++ [closeBrace]
  | .more key value after rest => key.text ++ value.text ++ after.chars ++ ',' :: rest.text
end

/-- A value between blanks. -/
def IsText (chars : List Char) : Prop :=
  ∃ (before : Blank) (node : Node) (after : Blank),
    chars = before.chars ++ node.text ++ after.chars

/-! ## Their parts -/

mutual
/-- How deep arrays and objects are nested. -/
def Node.depth : Node → Nat
  | .word _ | .number _ | .string _ => 0
  | .emptyArray _ | .emptyObject _ => 1
  | .array elements => elements.depth + 1
  | .object members => members.depth + 1

def Elements.depth : Elements → Nat
  | .last _ item _ => item.depth
  | .more _ item _ rest => max item.depth rest.depth

def ObjectMembers.depth : ObjectMembers → Nat
  | .last _ value _ => value.depth
  | .more _ value _ rest => max value.depth rest.depth
end

mutual
def Node.numbers : Node → List Number
  | .word _ | .string _ | .emptyArray _ | .emptyObject _ => []
  | .number number => [number]
  | .array elements => elements.numbers
  | .object members => members.numbers

def Elements.numbers : Elements → List Number
  | .last _ item _ => item.numbers
  | .more _ item _ rest => item.numbers ++ rest.numbers

def ObjectMembers.numbers : ObjectMembers → List Number
  | .last _ value _ => value.numbers
  | .more _ value _ rest => value.numbers ++ rest.numbers
end

mutual
/-- The strings, names included. -/
def Node.strings : Node → List (List Item)
  | .word _ | .number _ | .emptyArray _ | .emptyObject _ => []
  | .string items => [items]
  | .array elements => elements.strings
  | .object members => members.strings

def Elements.strings : Elements → List (List Item)
  | .last _ item _ => item.strings
  | .more _ item _ rest => item.strings ++ rest.strings

def ObjectMembers.strings : ObjectMembers → List (List Item)
  | .last key value _ => key.items :: value.strings
  | .more key value _ rest => key.items :: value.strings ++ rest.strings
end

def ObjectMembers.names : ObjectMembers → List (List Item)
  | .last key _ _ => [key.items]
  | .more key _ _ rest => key.items :: rest.names

mutual
/-- The names of each object that has some. -/
def Node.objects : Node → List (List (List Item))
  | .word _ | .number _ | .string _ | .emptyArray _ | .emptyObject _ => []
  | .array elements => elements.objects
  | .object members => members.names :: members.objects

def Elements.objects : Elements → List (List (List Item))
  | .last _ item _ => item.objects
  | .more _ item _ rest => item.objects ++ rest.objects

def ObjectMembers.objects : ObjectMembers → List (List (List Item))
  | .last _ value _ => value.objects
  | .more _ value _ rest => value.objects ++ rest.objects
end

end Orkworksd.Lib.JsonGrammar
