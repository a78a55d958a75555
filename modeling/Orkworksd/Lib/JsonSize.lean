import Orkworksd.Lib.JsonPrint

/- How many bytes the compact text of a JSON value takes, from the sizes of its parts.

   `length_bytes` says that `size` is the length of what is written; the lemmas after it
   give the size of an array, of an object and of a decimal number, and of a text that
   repeats one character. -/
namespace Orkworksd.Lib
open List

namespace JsonText

/-- The bytes of a text between its quotes. -/
def textSize (chars : List Char) : Nat := (chars.map (fun c => (encode (escape c)).length)).sum

variable (chars : List Char)

theorem length_quote : (encode (quote chars)).length = textSize chars + 2 := by
  have hbody : (encode (chars.flatMap escape)).length = textSize chars := by
    induction chars with
    | nil => rfl
    | cons c chars ih =>
      rw [flatMap_cons, encode_append, length_append, ih]
      rfl
  show (encode (['"'] ++ chars.flatMap escape ++ ['"'])).length = _
  rw [encode_append, encode_append, length_append, length_append, hbody]
  have hquote : (encode ['"']).length = 1 := rfl
  omega

theorem textSize_le : textSize chars ≤ 6 * chars.length := by
  have h := length_quote_le chars
  rw [length_quote] at h
  omega

theorem textSize_plain {chars : List Char} (h : ∀ c ∈ chars, Plain c) :
    textSize chars = chars.length := by
  have hquote := length_quote_plain h
  rw [length_quote] at hquote
  omega

theorem textSize_replicate (n : Nat) (c : Char) :
    textSize (List.replicate n c) = n * (encode (escape c)).length := by
  rw [textSize, map_replicate, sum_replicate_nat]

end JsonText

namespace Json
open JsonText (encode encode_append)

mutual
def size : Json → Nat
  | .null => 4
  | .bool value => if value then 4 else 5
  | .number text => (encode text.toList).length
  | .string text => JsonText.textSize text.toList + 2
  | .array items => sizeItems true items + 2
  | .object members => sizeMembers true members + 2

def sizeItems (first : Bool) : List Json → Nat
  | [] => 0
  | item :: items => (if first then 0 else 1) + item.size + sizeItems false items

def sizeMembers (first : Bool) : List (String × Json) → Nat
  | [] => 0
  | (key, value) :: members =>
    (if first then 0 else 1) + (JsonText.textSize key.toList + 3) + value.size +
      sizeMembers false members
end

theorem length_comma (first : Bool) :
    (encode (if first then [] else [','])).length = if first then 0 else 1 := by
  cases first
  · rfl
  · rfl

mutual
theorem length_print (v : Json) : (encode v.print).length = v.size := by
  cases v with
  | null => rfl
  | bool value =>
    cases value
    · rfl
    · rfl
  | number text => rfl
  | string text => exact JsonText.length_quote _
  | array items =>
    show (encode (['['] ++ printItems true items ++ [']'])).length = sizeItems true items + 2
    rw [encode_append, encode_append, length_append, length_append, length_printItems true items]
    have hopen : (encode ['[']).length = 1 := rfl
    have hclose : (encode [']']).length = 1 := rfl
    omega
  | object members =>
    show (encode ([Char.ofNat 0x7b] ++ printMembers true members ++ [Char.ofNat 0x7d])).length =
      sizeMembers true members + 2
    rw [encode_append, encode_append, length_append, length_append,
      length_printMembers true members]
    have hopen : (encode [Char.ofNat 0x7b]).length = 1 := rfl
    have hclose : (encode [Char.ofNat 0x7d]).length = 1 := rfl
    omega

theorem length_printItems (first : Bool) (items : List Json) :
    (encode (printItems first items)).length = sizeItems first items := by
  cases items with
  | nil => rfl
  | cons item items =>
    rw [printItems, sizeItems, encode_append, encode_append, length_append,
      length_append, length_comma, length_print item, length_printItems false items]

theorem length_printMembers (first : Bool) (members : List (String × Json)) :
    (encode (printMembers first members)).length = sizeMembers first members := by
  cases members with
  | nil => rfl
  | cons m members =>
    show (encode ((if first then [] else [',']) ++ JsonText.quote m.1.toList ++ ([':'] ++ m.2.print)
      ++ printMembers false members)).length = _
    rw [sizeMembers, encode_append, encode_append, encode_append, encode_append,
      length_append, length_append, length_append, length_append,
      length_comma, JsonText.length_quote, length_print m.2, length_printMembers false members]
    have hcolon : (encode [':']).length = 1 := rfl
    omega
end

theorem length_bytes (v : Json) : v.bytes.length = v.size := length_print v

/-! ## Arrays -/

variable (items : List Json)

theorem sizeItems_false : sizeItems false items = (items.map size).sum + items.length := by
  induction items with
  | nil => rfl
  | cons item items ih =>
    rw [sizeItems, ih, map_cons, sum_cons, length_cons]
    simp only [Bool.false_eq_true, if_false]
    omega

theorem size_array : (array items).size = 2 + (items.map size).sum + (items.length - 1) := by
  cases items with
  | nil => rfl
  | cons item items =>
    rw [size, sizeItems, sizeItems_false, map_cons, sum_cons, length_cons]
    simp only [if_true]
    omega

/-! ## Objects -/

variable (members : List (String × Json))

theorem sizeMembers_false :
    sizeMembers false members = (members.map (fun m => JsonText.textSize m.1.toList)).sum +
      (members.map (fun m => m.2.size)).sum + 4 * members.length := by
  induction members with
  | nil => rfl
  | cons m members ih =>
    obtain ⟨key, value⟩ := m
    rw [sizeMembers, ih, map_cons, sum_cons, map_cons, sum_cons, length_cons]
    simp only [Bool.false_eq_true, if_false]
    omega

theorem size_object_le :
    (object members).size ≤ 2 + (members.map (fun m => JsonText.textSize m.1.toList)).sum +
      (members.map (fun m => m.2.size)).sum + 4 * members.length := by
  cases members with
  | nil => exact Nat.le_refl 2
  | cons m members =>
    obtain ⟨key, value⟩ := m
    rw [size, sizeMembers, sizeMembers_false, map_cons, sum_cons, map_cons, sum_cons, length_cons]
    simp only [if_true]
    omega

/-! ## Decimal numbers -/

theorem plain_digit {c : Char} (h : c.isDigit = true) : JsonText.Plain c := by
  obtain ⟨hlow, hhigh⟩ := (Bool.and_eq_true _ _).mp h
  have hlow : 48 ≤ c.toNat := of_decide_eq_true hlow
  have hhigh : c.toNat ≤ 57 := of_decide_eq_true hhigh
  refine ⟨by omega, by omega, ?_, ?_⟩
  · intro heq
    rw [heq] at hlow
    exact absurd hlow (by decide)
  · intro heq
    rw [heq] at hhigh
    exact absurd hhigh (by decide)

theorem digits_plain (n : Nat) : ∀ c ∈ (toString n).toList, JsonText.Plain c := by
  rw [Nat.toString_eq_repr, Nat.toList_repr]
  intro c hc
  exact plain_digit (Nat.isDigit_of_mem_toDigits (by decide) (by decide) hc)

variable {k n : Nat}

theorem length_toString_le (hk : 0 < k) (h : n < 10 ^ k) : (toString n).toList.length ≤ k :=
  (Nat.length_repr_le_iff hk).mpr h

theorem length_encode_plain {chars : List Char} (h : ∀ c ∈ chars, JsonText.Plain c) :
    (encode chars).length = chars.length := by
  induction chars with
  | nil => rfl
  | cons c chars ih =>
    have hc := h c mem_cons_self
    have hone : (encode [c]).length = 1 := congrArg List.length (JsonText.encode_singleton hc.2.1)
    rw [← singleton_append, encode_append, length_append, hone,
      ih (fun x hx => h x (mem_cons_of_mem c hx)), length_append]
    rfl

theorem size_natural_le (hk : 0 < k) (h : n < 10 ^ k) : (number (toString n)).size ≤ k := by
  rw [size, length_encode_plain (digits_plain n)]
  exact length_toString_le hk h

theorem size_integer_le {n : Int} (hk : 0 < k) (h : n.natAbs < 10 ^ k) :
    (number (toString n)).size ≤ k + 1 := by
  cases n with
  | ofNat m => exact Nat.le_succ_of_le (size_natural_le hk h)
  | negSucc m =>
    have hsucc := size_natural_le hk h
    have hsign : (number (toString (Int.negSucc m))).size =
        (number (toString (m + 1))).size + 1 := by
      show (encode ("-" ++ toString (m + 1)).toList).length = _
      rw [String.toList_append, encode_append, length_append, Nat.add_comm]
      rfl
    rw [hsign]
    exact Nat.succ_le_succ hsucc

end Json

end Orkworksd.Lib
