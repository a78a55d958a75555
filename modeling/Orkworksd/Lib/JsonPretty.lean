import Orkworksd.Lib.JsonRead
import Orkworksd.Lib.JsonSize

/- How many bytes a JSON value takes that is written over several lines, from the sizes of its
   parts, and that such a text is read back when a line end follows it. -/
namespace Orkworksd.Lib.Json
open List
open JsonText (encode encode_append)

theorem read_pretty_line (v : Json) (hv : v.Counting) :
    read (encode (v.pretty 0 ++ ['\n'])) = some v := by
  have hchars : (encode (v.pretty 0 ++ ['\n'])).toByteArray.utf8Decode? =
      some (v.pretty 0 ++ ['\n']).toArray := List.utf8Decode?_utf8Encode
  have hweight := weight_le v hv 0
  have hfuel : v.weight ≤ 2 * (v.pretty 0 ++ ['\n']).length + 1 := by
    rw [length_append]
    omega
  have hvalue := readValue_pretty v hv 0 hfuel (stops_cons (.inr rfl) [])
  rw [read, hchars]
  show readWhole (v.pretty 0 ++ ['\n']) = _
  rw [readWhole, hvalue]
  rfl

variable (level : Nat)

theorem length_newline : (encode (newline level)).length = 2 * level + 1 := by
  have hspaces (n : Nat) : (encode (List.replicate n ' ')).length = n := by
    induction n with
    | zero => rfl
    | succ n ih =>
      have hone : (encode [' ']).length = 1 := rfl
      rw [replicate_succ, ← singleton_append, encode_append, length_append, ih, hone, Nat.add_comm]
  have hline : (encode ['\n']).length = 1 := rfl
  rw [newline, ← singleton_append, encode_append, length_append, hspaces, hline, Nat.add_comm]

theorem length_pretty_string (text : String) :
    (encode ((Json.string text).pretty level)).length = JsonText.textSize text.toList + 2 :=
  JsonText.length_quote _

theorem length_prettyMembers_cons (first : Bool) (key : String) (value : Json)
    (members : List (String × Json)) :
    (encode (prettyMembers level first ((key, value) :: members))).length =
      (if first then 0 else 1) + JsonText.textSize key.toList + 2 * level + 5 +
        (encode (value.pretty level)).length +
        (encode (prettyMembers level false members)).length := by
  have hcolon : (encode [':', ' ']).length = 2 := rfl
  have hsplit : prettyMembers level first ((key, value) :: members) =
      (if first then [] else [',']) ++ newline level ++ JsonText.quote key.toList ++ [':', ' '] ++
        value.pretty level ++ prettyMembers level false members := by
    rw [prettyMembers]
    simp only [append_assoc, cons_append, nil_append]
  rw [hsplit]
  simp only [encode_append, length_append, length_comma, length_newline, JsonText.length_quote,
    hcolon]
  omega

theorem length_pretty_texts (values : List String) : (encode ((texts values).pretty level)).length =
      if values = [] then 2
      else 2 * level + 2 +
        (values.map (fun text => JsonText.textSize text.toList + 2 * level + 6)).sum := by
  have hitems (first : Bool) (values : List String) :
      (encode (prettyItems (level + 1) first (values.map Json.string))).length +
          (if first = true ∧ values ≠ [] then 1 else 0) =
        (values.map (fun text => JsonText.textSize text.toList + 2 * level + 6)).sum := by
    induction values generalizing first with
    | nil => simp [prettyItems, encode]
    | cons value values ih =>
      have hrest := ih false
      simp only [Bool.false_eq_true, false_and, if_false, Nat.add_zero] at hrest
      rw [map_cons, prettyItems, encode_append, encode_append, encode_append,
        length_append, length_append, length_append, length_comma, length_newline,
        length_pretty_string, hrest, map_cons, sum_cons]
      cases first with
      | true => simp; omega
      | false => simp; omega
  have hall := hitems true values
  have hopen : (encode ['[']).length = 1 := rfl
  have hclose : (encode [']']).length = 1 := rfl
  show (encode (['['] ++ prettyItems (level + 1) true (values.map Json.string) ++
    lastLine (values.map Json.string).isEmpty level ++ [']'])).length = _
  rw [encode_append, encode_append, encode_append, length_append, length_append,
    length_append, hopen, hclose]
  cases values with
  | nil => rfl
  | cons value values =>
    rw [if_pos ⟨rfl, cons_ne_nil _ _⟩] at hall
    rw [if_neg (cons_ne_nil _ _)]
    show 1 + _ + (encode (newline level)).length + 1 = _
    rw [length_newline]
    omega

end Orkworksd.Lib.Json
