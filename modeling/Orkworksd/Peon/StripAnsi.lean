import Orkworksd.Lib.Ansi

/- Escape sequences stripped from a terminal's output (`peon.rs`: `strip_ansi`,
   `strip_ansi_for_usage_limit`).

   The source reads a sequence with a loop for each kind and calls itself where an ESC ends a
   string and begins another sequence. `stripAnsi_eq` says that this is the reader of
   `Lib.Ansi`, one character at a time: everything else about stripping follows from there. -/
namespace Orkworksd.Peon
open Lib Ansi

/-- The loop of a control sequence: its final character, if it has one, and the rest. -/
def readCsi : List Char → Option Char × List Char
  | [] => (none, [])
  | c :: rest => if isFinal c then (some c, rest) else readCsi rest

/-- The loop of a string command: the rest, and whether a bare ESC has ended it. -/
def readStringCommand (bell : Bool) : List Char → List Char × Bool
  | [] => ([], false)
  | c :: rest =>
    if bell ∧ c = bel then (rest, false)
    else if c = esc then
      if rest.head? = some '\\' then (rest.tail, false) else (rest, true)
    else readStringCommand bell rest

/-- What a control sequence leaves in the text. -/
def cursorOutput (cursorRowBoundaries : Bool) (final : Char) : List Char :=
  if cursorRowBoundaries ∧ final ∈ ['A', 'B', 'E', 'F', 'H', 'd', 'f'] then ['\n']
  else if final ∈ ['A', 'B', 'C', 'D', 'E', 'F', 'G', 'H', 'd', 'f', 's', 'u'] then [' ']
  else []

/-- `strip_ansi_escape`, on what follows the ESC: what it puts out, and the rest. -/
def stripAnsiEscape (cursorRowBoundaries : Bool) : Nat → List Char → List Char × List Char
  | 0, chars => ([], chars)
  | _ + 1, [] => ([], [])
  | fuel + 1, c :: rest =>
    if c = '[' then
      (((readCsi rest).1.map (cursorOutput cursorRowBoundaries)).getD [], (readCsi rest).2)
    else if c = ']' then
      if (readStringCommand true rest).2 then
        stripAnsiEscape cursorRowBoundaries fuel (readStringCommand true rest).1
      else ([], (readStringCommand true rest).1)
    else if c ∈ stringKinds then
      if (readStringCommand false rest).2 then
        stripAnsiEscape cursorRowBoundaries fuel (readStringCommand false rest).1
      else ([], (readStringCommand false rest).1)
    else if c ∈ oneKinds then ([], rest.tail)
    else ([], rest)

def stripLoop (cursorRowBoundaries : Bool) : Nat → List Char → List Char
  | 0, _ => []
  | _ + 1, [] => []
  | fuel + 1, c :: rest =>
    if c ≠ esc then c :: stripLoop cursorRowBoundaries fuel rest
    else
      let sequence := stripAnsiEscape cursorRowBoundaries (rest.length + 1) rest
      sequence.1 ++ stripLoop cursorRowBoundaries fuel sequence.2

def stripAnsiWithCursorMode (cursorRowBoundaries : Bool) (s : List Char) : List Char :=
  stripLoop cursorRowBoundaries (s.length + 1) s

def stripAnsi (s : List Char) : List Char := stripAnsiWithCursorMode false s

def stripAnsiForUsageLimit (s : List Char) : List Char := stripAnsiWithCursorMode true s

/-! ## One character at a time -/

variable (display : Char → List Char)

theorem shown_csi (chars : List Char) : shown display .csi chars =
      ((readCsi chars).1.map display).getD [] ++ shown display .ground (readCsi chars).2 := by
  induction chars with
  | nil => rfl
  | cons c rest ih =>
    rw [shown_cons, readCsi, out, next]
    by_cases hc : isFinal c = true
    · simp only [if_pos hc]
      rfl
    · simp only [if_neg hc]
      exact ih

theorem length_readCsi (chars : List Char) : (readCsi chars).2.length ≤ chars.length := by
  induction chars with
  | nil => exact Nat.le_refl 0
  | cons c rest ih =>
    rw [readCsi]
    split
    · exact Nat.le_succ _
    · exact Nat.le_succ_of_le ih

def stringMode (bell : Bool) : Mode := if bell then .osc else .string

theorem shown_closing {chars : List Char} (h : chars.head? ≠ some '\\') :
    shown display .closing chars = shown display .escape chars := by
  cases chars with
  | nil => rfl
  | cons c rest =>
    have hc : c ≠ '\\' := fun heq => h (congrArg some heq)
    rw [shown_cons, shown_cons, next, next, if_neg hc]
    rfl

variable (bell : Bool)

theorem out_stringMode (c : Char) : out display (stringMode bell) c = [] := by
  cases bell <;> rfl

theorem next_stringMode (c : Char) : next (stringMode bell) c =
    if bell ∧ c = bel then .ground else if c = esc then .closing else stringMode bell := by
  cases bell with
  | true => simp only [true_and]; rfl
  | false => simp only [Bool.false_eq_true, false_and, if_false]; rfl

theorem shown_string (chars : List Char) : shown display (stringMode bell) chars =
      shown display (if (readStringCommand bell chars).2 then .escape else .ground)
        (readStringCommand bell chars).1 := by
  induction chars with
  | nil => rw [shown_nil]; rfl
  | cons c rest ih =>
    rw [shown_cons, out_stringMode, next_stringMode, List.nil_append, readStringCommand]
    by_cases hbell : bell = true ∧ c = bel
    · rw [if_pos hbell, if_pos hbell]
      rfl
    · rw [if_neg hbell, if_neg hbell]
      by_cases hesc : c = esc
      · rw [if_pos hesc, if_pos hesc]
        by_cases hhead : rest.head? = some '\\'
        · rw [if_pos hhead]
          obtain ⟨tail, rfl⟩ := List.head?_eq_some_iff.mp hhead
          rfl
        · rw [if_neg hhead, shown_closing display hhead]
          rfl
      · rw [if_neg hesc, if_neg hesc]
        exact ih

theorem length_readStringCommand (chars : List Char) :
    (readStringCommand bell chars).1.length ≤ chars.length := by
  induction chars with
  | nil => exact Nat.le_refl 0
  | cons c rest ih =>
    rw [readStringCommand]
    split
    · exact Nat.le_succ _
    · split
      · split
        · rw [List.length_tail, List.length_cons]
          omega
        · exact Nat.le_succ _
      · exact Nat.le_succ_of_le ih

variable (rows : Bool)

/-- One sequence is the source's recursion: what it puts out, and then the rest. -/
theorem shown_escape {fuel : Nat} {chars : List Char} (h : chars.length < fuel) :
    shown (cursorOutput rows) .escape chars =
      (stripAnsiEscape rows fuel chars).1 ++
        shown (cursorOutput rows) .ground (stripAnsiEscape rows fuel chars).2 := by
  induction fuel generalizing chars with
  | zero => exact absurd h (Nat.not_lt_zero _)
  | succ fuel ih =>
    cases chars with
    | nil => rfl
    | cons c rest =>
      have hrest : rest.length < fuel := Nat.lt_of_succ_lt_succ h
      -- a string that a bare ESC ends goes on with the sequence that begins there
      have hstring (bell : Bool) : shown (cursorOutput rows) (stringMode bell) rest =
          (if (readStringCommand bell rest).2 then
            stripAnsiEscape rows fuel (readStringCommand bell rest).1
          else ([], (readStringCommand bell rest).1)).1 ++
            shown (cursorOutput rows) .ground (if (readStringCommand bell rest).2 then
              stripAnsiEscape rows fuel (readStringCommand bell rest).1
            else ([], (readStringCommand bell rest).1)).2 := by
        rw [shown_string]
        cases (readStringCommand bell rest).2 with
        | true => exact ih (Nat.lt_of_le_of_lt (length_readStringCommand bell rest) hrest)
        | false => rfl
      rw [shown_cons, stripAnsiEscape]
      show shown (cursorOutput rows) (begin c) rest = _
      unfold begin
      by_cases hcsi : c = '['
      · simp only [if_pos hcsi]
        exact shown_csi _ rest
      · simp only [if_neg hcsi]
        by_cases hosc : c = ']'
        · simp only [if_pos hosc]
          exact hstring true
        · simp only [if_neg hosc]
          by_cases hkind : c ∈ stringKinds
          · simp only [if_pos hkind]
            exact hstring false
          · simp only [if_neg hkind]
            by_cases hone : c ∈ oneKinds
            · simp only [if_pos hone]
              cases rest <;> rfl
            · simp only [if_neg hone]
              rfl

theorem length_stripAnsiEscape (fuel : Nat) (chars : List Char) :
    (stripAnsiEscape rows fuel chars).2.length ≤ chars.length := by
  induction fuel generalizing chars with
  | zero => exact Nat.le_refl _
  | succ fuel ih =>
    cases chars with
    | nil => exact Nat.le_refl _
    | cons c rest =>
      have hstring (bell : Bool) : (if (readStringCommand bell rest).2 then
            stripAnsiEscape rows fuel (readStringCommand bell rest).1
          else ([], (readStringCommand bell rest).1)).2.length ≤ rest.length + 1 := by
        have hlength := length_readStringCommand bell rest
        split
        · have hsequence := ih (readStringCommand bell rest).1
          omega
        · exact Nat.le_succ_of_le hlength
      rw [stripAnsiEscape]
      split
      · exact Nat.le_succ_of_le (length_readCsi rest)
      · split
        · exact hstring true
        · split
          · exact hstring false
          · split
            · rw [List.length_tail, List.length_cons]
              omega
            · exact Nat.le_succ _

theorem stripLoop_eq {fuel : Nat} {s : List Char} (h : s.length < fuel) :
    stripLoop rows fuel s = shown (cursorOutput rows) .ground s := by
  induction fuel generalizing s with
  | zero => exact absurd h (Nat.not_lt_zero _)
  | succ fuel ih =>
    cases s with
    | nil => rfl
    | cons c rest =>
      have hrest : rest.length < fuel := Nat.lt_of_succ_lt_succ h
      rw [stripLoop, shown_cons, out, next]
      by_cases hc : c = esc
      · have hlength := length_stripAnsiEscape rows (rest.length + 1) rest
        rw [if_neg (not_not_intro hc), if_pos hc, if_pos hc,
          shown_escape rows (Nat.lt_succ_self rest.length)]
        dsimp only
        rw [ih (Nat.lt_of_le_of_lt hlength hrest)]
        rfl
      · rw [if_pos hc, if_neg hc, if_neg hc, ih hrest]
        rfl

theorem stripAnsi_eq (s : List Char) :
    stripAnsiWithCursorMode rows s = shown (cursorOutput rows) .ground s :=
  stripLoop_eq rows (Nat.lt_succ_self s.length)

theorem length_cursorOutput_le (final : Char) : (cursorOutput rows final).length ≤ 1 := by
  unfold cursorOutput
  split
  · exact Nat.le_refl 1
  · split
    · exact Nat.le_refl 1
    · exact Nat.zero_le 1

theorem esc_notMem_cursorOutput (final : Char) : esc ∉ cursorOutput rows final := by
  unfold cursorOutput
  split
  · decide
  · split
    · decide
    · exact List.not_mem_nil

end Orkworksd.Peon
