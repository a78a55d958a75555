import Orkworksd.Lib.JsonText
import Orkworksd.Lib.JsonValue

/- The compact text of a JSON value, and why it tells the value.

   `print` is what serde_json writes; `sorted` puts the members of every object in the order
   of their names, at every depth. `print_append_inj` says where the text of a value ends:
   what follows a value is nothing, a comma or a closing bracket, and none of these can
   continue it. Numbers are written as the caller has them, so the text of a number has to
   be made of the characters of one (`Numeric`). -/
namespace Orkworksd.Lib
open List

namespace Json

variable {c : Char}

/-! ## Printing -/

mutual
def print : Json → List Char
  | .null => ['n', 'u', 'l', 'l']
  | .bool value => if value then ['t', 'r', 'u', 'e'] else ['f', 'a', 'l', 's', 'e']
  | .number text => text.toList
  | .string text => JsonText.quote text.toList
  | .array items => '[' :: printItems true items ++ [']']
  | .object members => Char.ofNat 0x7b :: printMembers true members ++ [Char.ofNat 0x7d]

/-- The items, each but the first after a comma. -/
def printItems (first : Bool) : List Json → List Char
  | [] => []
  | item :: items => (if first then [] else [',']) ++ item.print ++ printItems false items

def printMembers (first : Bool) : List (String × Json) → List Char
  | [] => []
  | (key, value) :: members =>
    (if first then [] else [',']) ++ JsonText.quote key.toList ++ ':' :: value.print ++
      printMembers false members
end

/-- The characters of a number: its digits, signs, point and exponent mark. -/
def isNumberChar (c : Char) : Bool :=
  c.isDigit || c == '-' || c == '+' || c == '.' || c == 'e' || c == 'E'

theorem isNumberChar_digit (h : c.isDigit = true) : isNumberChar c = true := by
  simp [isNumberChar, h]

mutual
/-- Every number in the value is written with the characters of a number. -/
def Numeric : Json → Prop
  | .number text => text.toList ≠ [] ∧ ∀ c ∈ text.toList, isNumberChar c = true
  | .array items => NumericItems items
  | .object members => NumericMembers members
  | _ => True

def NumericItems : List Json → Prop
  | [] => True
  | item :: items => item.Numeric ∧ NumericItems items

def NumericMembers : List (String × Json) → Prop
  | [] => True
  | (_, value) :: members => value.Numeric ∧ NumericMembers members
end

/-! ## Where a value ends -/

/-- The characters that may follow a value. -/
def Ends (rest : List Char) : Prop :=
  ∀ c tail, rest = c :: tail → c = ',' ∨ c = ']' ∨ c = Char.ofNat 0x7d

theorem ends_nil : Ends [] := fun _ _ h => nomatch h

theorem ends_cons (h : c = ',' ∨ c = ']' ∨ c = Char.ofNat 0x7d) (tail : List Char) :
    Ends (c :: tail) := by
  intro d tail' heq
  obtain ⟨rfl, -⟩ := List.cons.inj heq
  exact h

/-- The first character of a value tells its constructor. -/
inductive Starts : Json → Char → Prop where
  | null : Starts .null 'n'
  | yes : Starts (.bool true) 't'
  | no : Starts (.bool false) 'f'
  | number {text : String} {c : Char} (h : isNumberChar c = true) : Starts (.number text) c
  | string {text : String} : Starts (.string text) '"'
  | array {items : List Json} : Starts (.array items) '['
  | object {members : List (String × Json)} : Starts (.object members) (Char.ofNat 0x7b)

variable {v : Json}

theorem print_starts (h : v.Numeric) : ∃ c tail, v.print = c :: tail ∧ Starts v c := by
  cases v with
  | null => exact ⟨_, _, rfl, .null⟩
  | bool value =>
    cases value with
    | true => exact ⟨_, _, rfl, .yes⟩
    | false => exact ⟨_, _, rfl, .no⟩
  | number text =>
    obtain ⟨hne, hnumber⟩ := h
    cases hchars : text.toList with
    | nil => exact absurd hchars hne
    | cons c tail =>
      refine ⟨c, tail, hchars, .number (hnumber c ?_)⟩
      rw [hchars]
      exact mem_cons_self
  | string text => exact ⟨_, _, rfl, .string⟩
  | array items => exact ⟨_, _, rfl, .array⟩
  | object members => exact ⟨_, _, rfl, .object⟩

theorem starts_not_end (h : Starts v c) : c ≠ ',' ∧ c ≠ ']' ∧ c ≠ Char.ofNat 0x7d := by
  cases h with
  | number hnumber =>
    refine ⟨?_, ?_, ?_⟩ <;>
    · intro heq
      subst heq
      revert hnumber
      decide
  | _ => decide

theorem number_append_inj {cs ds x y : List Char} (hc : ∀ c ∈ cs, isNumberChar c = true)
    (hd : ∀ d ∈ ds, isNumberChar d = true) (hx : Ends x) (hy : Ends y) (h : cs ++ x = ds ++ y) :
    cs = ds ∧ x = y := by
  have hclash : ∀ {rest : List Char}, Ends rest → ∀ c tail, rest = c :: tail →
      ¬ isNumberChar c = true := by
    intro rest hrest c tail heq
    obtain hcomma | hsquare | hbrace := hrest c tail heq <;> subst c <;> decide
  exact JsonText.span_append_inj hc hd (hclash hx) (hclash hy) h

theorem rest_ends {text : List Char} (first : Bool) {close : Char}
    (hclose : close = ']' ∨ close = Char.ofNat 0x7d) (tail : List Char)
    (h : text = [] ∨ ∃ more, text = (if first then [] else [',']) ++ more)
    (hfirst : first = false) : Ends (text ++ close :: tail) := by
  subst hfirst
  rcases h with rfl | ⟨more, rfl⟩
  · exact ends_cons (.inr hclose) tail
  · exact ends_cons (.inl rfl) _

variable (first : Bool)

theorem printItems_shape (items : List Json) : printItems first items = [] ∨
      ∃ more, printItems first items = (if first then [] else [',']) ++ more := by
  cases items with
  | nil => exact .inl rfl
  | cons item items => exact .inr ⟨_, by rw [printItems, append_assoc]⟩

theorem printMembers_shape (members : List (String × Json)) : printMembers first members = [] ∨
      ∃ more, printMembers first members = (if first then [] else [',']) ++ more := by
  cases members with
  | nil => exact .inl rfl
  | cons member members =>
    exact .inr ⟨_, by rw [printMembers, append_assoc, append_assoc]⟩

/-- A number for each kind of first character. -/
def kind : Json → Nat
  | .null => 0
  | .bool value => if value then 1 else 2
  | .number _ => 3
  | .string _ => 4
  | .array _ => 5
  | .object _ => 6

def kindOf (c : Char) : Nat :=
  if c = 'n' then 0 else if c = 't' then 1 else if c = 'f' then 2
  else if c = '"' then 4 else if c = '[' then 5 else if c = Char.ofNat 0x7b then 6 else 3

theorem starts_kind (h : Starts v c) : kindOf c = v.kind := by
  cases h with
  | number hnumber =>
    have hne : ∀ d : Char, isNumberChar d = false → c ≠ d := by
      intro d hd heq
      subst heq
      rw [hnumber] at hd
      cases hd
    simp only [kindOf, if_neg (hne 'n' (by decide)), if_neg (hne 't' (by decide)),
      if_neg (hne 'f' (by decide)), if_neg (hne '"' (by decide)), if_neg (hne '[' (by decide)),
      if_neg (hne (Char.ofNat 0x7b) (by decide)), kind]
  | _ => rfl

theorem print_kind {w : Json} {x y : List Char} (hv : v.Numeric) (hw : w.Numeric)
    (h : v.print ++ x = w.print ++ y) : v.kind = w.kind := by
  obtain ⟨c, s, hc, hstart⟩ := print_starts hv
  obtain ⟨d, t, hd, hstart'⟩ := print_starts hw
  rw [hc, hd] at h
  obtain ⟨rfl, -⟩ := List.cons.inj h
  exact (starts_kind hstart).symm.trans (starts_kind hstart')

theorem more_not_close {first : Bool} {close : Char} {more tail : List Char}
    (hclose : close = ']' ∨ close = Char.ofNat 0x7d) (hc : c ≠ close) :
    close :: tail ≠ (if first then [] else [',']) ++ c :: more := by
  cases first with
  | true => exact fun h => hc (List.cons.inj h).1.symm
  | false =>
    intro h
    have hcomma : close = ',' := (List.cons.inj h).1
    obtain rfl | rfl := hclose <;> revert hcomma <;> decide

theorem item_not_close (hv : v.Numeric) (rest tail : List Char) :
    ']' :: tail ≠ (if first then [] else [',']) ++ (v.print ++ rest) := by
  obtain ⟨c, s, hc, hstart⟩ := print_starts hv
  rw [hc]
  exact more_not_close (.inl rfl) (starts_not_end hstart).2.1

mutual
theorem print_append_inj (v w : Json) {x y : List Char} (hv : v.Numeric) (hw : w.Numeric)
    (hx : Ends x) (hy : Ends y) (h : v.print ++ x = w.print ++ y) : v = w ∧ x = y := by
  have hkind := print_kind hv hw h
  match v, w with
  | .null, .null => exact ⟨rfl, append_cancel_left h⟩
  | .bool true, .bool true => exact ⟨rfl, append_cancel_left h⟩
  | .bool false, .bool false => exact ⟨rfl, append_cancel_left h⟩
  | .number text, .number text' =>
    obtain ⟨hchars, hxy⟩ := number_append_inj hv.2 hw.2 hx hy h
    exact ⟨congrArg Json.number (String.toList_injective hchars), hxy⟩
  | .string text, .string text' =>
    obtain ⟨hchars, hxy⟩ := JsonText.quote_append_inj h
    exact ⟨congrArg Json.string (String.toList_injective hchars), hxy⟩
  | .array items, .array items' =>
    simp only [print, cons_append, append_assoc, List.cons.injEq, true_and, nil_append] at h
    obtain ⟨hitems, hxy⟩ := printItems_append_inj true items items' hv hw h
    exact ⟨congrArg Json.array hitems, hxy⟩
  | .object members, .object members' =>
    simp only [print, cons_append, append_assoc, List.cons.injEq, true_and, nil_append] at h
    obtain ⟨hmembers, hxy⟩ := printMembers_append_inj true members members' hv hw h
    exact ⟨congrArg Json.object hmembers, hxy⟩

theorem printItems_append_inj (first : Bool) (vs ws : List Json) {x y : List Char}
    (hv : NumericItems vs) (hw : NumericItems ws)
    (h : printItems first vs ++ ']' :: x = printItems first ws ++ ']' :: y) :
    vs = ws ∧ x = y := by
  match vs, ws with
  | [], [] => exact ⟨rfl, (List.cons.inj h).2⟩
  | v :: vs, w :: ws =>
    simp only [printItems, append_assoc] at h
    obtain ⟨rfl, hrest⟩ := print_append_inj v w hv.1 hw.1
      (rest_ends false (.inl rfl) x (printItems_shape false vs) rfl)
      (rest_ends false (.inl rfl) y (printItems_shape false ws) rfl)
      (append_cancel_left h)
    obtain ⟨rfl, hxy⟩ := printItems_append_inj false vs ws hv.2 hw.2 hrest
    exact ⟨rfl, hxy⟩
  | [], w :: ws =>
    simp only [printItems, append_assoc] at h
    exact absurd h (item_not_close first hw.1 _ x)
  | v :: vs, [] =>
    simp only [printItems, append_assoc] at h
    exact absurd h.symm (item_not_close first hv.1 _ y)

theorem printMembers_append_inj (first : Bool) (vs ws : List (String × Json)) {x y : List Char}
    (hv : NumericMembers vs) (hw : NumericMembers ws)
    (h : printMembers first vs ++ Char.ofNat 0x7d :: x =
      printMembers first ws ++ Char.ofNat 0x7d :: y) :
    vs = ws ∧ x = y := by
  match vs, ws with
  | [], [] => exact ⟨rfl, (List.cons.inj h).2⟩
  | (key, v) :: vs, (key', w) :: ws =>
    simp only [printMembers, append_assoc] at h
    obtain ⟨hkey, hvalue⟩ := JsonText.quote_append_inj (append_cancel_left h)
    obtain ⟨rfl, hrest⟩ := print_append_inj v w hv.1 hw.1
      (rest_ends false (.inr rfl) x (printMembers_shape false vs) rfl)
      (rest_ends false (.inr rfl) y (printMembers_shape false ws) rfl)
      (List.cons.inj hvalue).2
    obtain ⟨rfl, hxy⟩ := printMembers_append_inj false vs ws hv.2 hw.2 hrest
    exact ⟨congrArg (fun k => (k, v) :: vs) (String.toList_injective hkey), hxy⟩
  | [], (key', w) :: ws =>
    simp only [printMembers, append_assoc] at h
    exact absurd h (more_not_close (.inr rfl) (by decide))
  | (key, v) :: vs, [] =>
    simp only [printMembers, append_assoc] at h
    exact absurd h.symm (more_not_close (.inr rfl) (by decide))
end

/-- The bytes of a value. -/
def bytes (v : Json) : List UInt8 := JsonText.encode v.print

theorem bytes_inj {w : Json} (hv : v.Numeric) (hw : w.Numeric) (h : v.bytes = w.bytes) : v = w := by
  have hprint : v.print = w.print := JsonText.encode_injective h
  refine (print_append_inj v w hv hw ends_nil ends_nil ?_).1
  rw [hprint]

end Json

end Orkworksd.Lib
