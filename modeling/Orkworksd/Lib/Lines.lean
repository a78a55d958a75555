import Mathlib.Data.List.Basic
import Mathlib.Data.List.Infix

/- The chunks of a file that is written line by line: every chunk ends with its line
   feed, except a last one that was not finished. -/
namespace Orkworksd.Lib.Lines
open List

/-- The line feed. -/
def newline : UInt8 := 0x0a

/-- Cut after every line feed. -/
def chunks : List UInt8 → List (List UInt8)
  | [] => []
  | b :: bytes =>
    if b = newline then [b] :: chunks bytes
    else match chunks bytes with
      | [] => [[b]]
      | chunk :: rest => (b :: chunk) :: rest

/-- A chunk without its line feed. -/
def content (chunk : List UInt8) : List UInt8 :=
  if chunk.getLast? = some newline then chunk.dropLast else chunk

variable (bytes : List UInt8)

theorem chunks_newline : chunks (newline :: bytes) = [newline] :: chunks bytes := by
  rw [chunks, if_pos rfl]

theorem chunks_line {line : List UInt8} (h : newline ∉ line) (rest : List UInt8) :
    chunks (line ++ newline :: rest) = (line ++ [newline]) :: chunks rest := by
  induction line with
  | nil => exact chunks_newline rest
  | cons b line ih =>
    rw [mem_cons, not_or] at h
    rw [cons_append, chunks, if_neg (Ne.symm h.1), ih h.2]
    rfl

variable {tail : List UInt8}

theorem chunks_tail (h : newline ∉ tail) (hne : tail ≠ []) : chunks tail = [tail] := by
  induction tail with
  | nil => exact absurd rfl hne
  | cons b tail ih =>
    rw [mem_cons, not_or] at h
    rw [chunks, if_neg (Ne.symm h.1)]
    cases tail with
    | nil => rfl
    | cons c tail => rw [ih h.2 (by simp)]

theorem content_line (line : List UInt8) : content (line ++ [newline]) = line := by
  rw [content, List.getLast?_concat, if_pos rfl, dropLast_concat]

theorem content_tail (h : newline ∉ tail) : content tail = tail := by
  rw [content, if_neg]
  intro hlast
  exact h (mem_of_getLast? hlast)

end Orkworksd.Lib.Lines
