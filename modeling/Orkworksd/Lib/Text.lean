import Mathlib.Data.List.Basic

/- Characters and texts as Rust's standard library classifies them. -/
namespace Orkworksd.Lib.Text
open List

/-- `char::is_control`: the Unicode category `Cc`. -/
def isControl (c : Char) : Bool := c.toNat < 0x20 || (0x7f ≤ c.toNat && c.toNat < 0xa0)

/-- `char::is_whitespace`: the Unicode property `White_Space`. -/
def isWhitespace (c : Char) : Bool :=
  (0x9 ≤ c.toNat && c.toNat ≤ 0xd) || (0x2000 ≤ c.toNat && c.toNat ≤ 0x200a)
    || [0x20, 0x85, 0xa0, 0x1680, 0x2028, 0x2029, 0x202f, 0x205f, 0x3000].contains c.toNat

/-- `str::trim`. -/
def trim (text : List Char) : List Char :=
  ((text.dropWhile isWhitespace).reverse.dropWhile isWhitespace).reverse

/-- `str::split_whitespace`. -/
def splitWhitespace (text : List Char) : List (List Char) :=
  (text.splitOnP isWhitespace).filter (fun word => !word.isEmpty)

/-- `&text[..n]` for `n` at most the length: no result where `n` is inside a character,
at which the source panics. -/
def takeBytes : Nat → List Char → Option (List Char)
  | 0, _ => some []
  | _ + 1, [] => some []
  | n + 1, c :: text =>
    if c.utf8Size ≤ n + 1 then (takeBytes (n + 1 - c.utf8Size) text).map (c :: ·) else none

variable {α : Type}

theorem cut_last {d : α} {x y u v : List α} (hu : d ∉ u) (hv : d ∉ v)
    (h : x ++ d :: u = y ++ d :: v) : x = y ∧ u = v := by
  rcases append_eq_append_iff.mp h with ⟨mid, rfl, hmid⟩ | ⟨mid, rfl, hmid⟩
  · cases mid with
    | nil => simpa using hmid
    | cons c mid =>
      rw [cons_append, List.cons.injEq] at hmid
      exact absurd (hmid.2 ▸ mem_append_right _ mem_cons_self) hu
  · cases mid with
    | nil => simpa [eq_comm] using hmid
    | cons c mid =>
      rw [cons_append, List.cons.injEq] at hmid
      exact absurd (hmid.2 ▸ mem_append_right _ mem_cons_self) hv

theorem cut_first {d : α} {x y u v : List α} (hx : d ∉ x) (hy : d ∉ y)
    (h : x ++ d :: u = y ++ d :: v) : x = y ∧ u = v := by
  rcases append_eq_append_iff.mp h with ⟨mid, rfl, hmid⟩ | ⟨mid, rfl, hmid⟩
  · cases mid with
    | nil => simpa using hmid
    | cons c mid =>
      rw [cons_append, List.cons.injEq] at hmid
      exact absurd (mem_append_right _ (hmid.1 ▸ mem_cons_self)) hy
  · cases mid with
    | nil => simpa [eq_comm] using hmid
    | cons c mid =>
      rw [cons_append, List.cons.injEq] at hmid
      exact absurd (mem_append_right _ (hmid.1 ▸ mem_cons_self)) hx

theorem length_le_utf8ByteSize (text : String) : text.toList.length ≤ text.utf8ByteSize := by
  have hchars : ∀ chars : List Char, chars.length ≤ (String.ofList chars).utf8ByteSize := by
    intro chars
    induction chars with
    | nil => exact Nat.zero_le _
    | cons c chars ih =>
      have hsplit : String.ofList (c :: chars) = String.singleton c ++ String.ofList chars := by
        apply String.toList_inj.mp
        simp
      rw [hsplit, String.utf8ByteSize_append, String.utf8ByteSize_singleton, length_cons]
      have := Char.utf8Size_pos c
      omega
  simpa using hchars text.toList

end Orkworksd.Lib.Text
