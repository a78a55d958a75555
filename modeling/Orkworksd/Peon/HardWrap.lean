import Mathlib.Data.List.SplitBy

/- Reassembly of hard-wrapped terminal rows (`peon.rs`, `rejoin_hard_wrapped_lines` and
   `rejoin_hard_wrapped_rows_streaming`).

   What is proved:
     1. `feed_rejoins`: however the rows are split into batches, the lines of the batches and
        the flushed prefix are the lines of all the rows at once, and hold all their text.
     2. `rejoinHardWrappedLines_splitBy`: what the lines are. The rows that are not empty are
        split after each one that does not fill the width, and each part is a line.

   A row is counted by its characters. -/
namespace Orkworksd.Peon.HardWrap
open List

/-! ## The source -/

abbrev Row : Type := List Char

/-- The variables of the loop over the rows. -/
structure Chain where
  result : List Row
  current : Option Row
  lastRowFullWidth : Bool
  deriving DecidableEq, Repr

/-- One row of the loop. -/
def Chain.push (cols : Nat) (chain : Chain) (row : Row) : Chain :=
  if row = [] then chain
  else
    let lastRowFullWidth := decide (cols ≤ row.length)
    match chain.current with
    | some previous =>
      if chain.lastRowFullWidth then
        { chain with current := some (previous ++ row), lastRowFullWidth }
      else ⟨chain.result ++ [previous], some row, lastRowFullWidth⟩
    | none => { chain with current := some row, lastRowFullWidth }

/-- What follows the loop: the lines, and the prefix held for the next rows. -/
def Chain.finish (chain : Chain) : List Row × Option Row :=
  match chain.current with
  | some previous =>
    if chain.lastRowFullWidth then (chain.result, some previous)
    else (chain.result ++ [previous], none)
  | none => (chain.result, none)

/-- The loop's variables before the first row: a held prefix had filled the width. -/
def Chain.begin (pending : Option Row) : Chain := ⟨[], pending, pending.isSome⟩

def rejoinHardWrappedRowsStreaming (pending : Option Row) (rows : List Row) (cols : Nat) :
    List Row × Option Row :=
  if cols = 0 then (rows, pending)
  else (rows.foldl (Chain.push cols) (.begin pending)).finish

/-- The lines, and a prefix that is left held pushed after them: the end of
`rejoin_hard_wrapped_lines`, and of the output in `handle_runtime_exit`. -/
def flush (rejoined : List Row × Option Row) : List Row := rejoined.1 ++ rejoined.2.toList

def rejoinHardWrappedLines (lines : List Row) (cols : Nat) : List Row :=
  flush (rejoinHardWrappedRowsStreaming none lines cols)

/-- The batches of a run, each with the prefix that the one before it has left: the lines, and
the prefix held in the end. -/
def feed (cols : Nat) : Option Row → List (List Row) → List Row × Option Row
  | pending, [] => ([], pending)
  | pending, batch :: batches =>
    let first := rejoinHardWrappedRowsStreaming pending batch cols
    let rest := feed cols first.2 batches
    (first.1 ++ rest.1, rest.2)

/-! ## One batch after the other -/

/-- The lines of a chain, if no further row comes. -/
def Chain.lines (chain : Chain) : List Row := chain.result ++ chain.current.toList

/-- The chain after the lines `before`. -/
def Chain.after (before : List Row) (chain : Chain) : Chain :=
  { chain with result := before ++ chain.result }

variable {cols : Nat}

variable (chain : Chain)

@[simp] theorem Chain.push_nil : chain.push cols [] = chain := if_pos rfl

variable (before : List Row)

theorem Chain.push_after (chain : Chain) (row : Row) :
    (chain.after before).push cols row = (chain.push cols row).after before := by
  by_cases hrow : row = []
  · rw [hrow, push_nil, push_nil]
  · obtain ⟨result, current, full⟩ := chain
    cases current with
    | none => simp only [push, after, if_neg hrow]
    | some previous => cases full <;> simp [push, after, if_neg hrow]

theorem Chain.foldl_after (chain : Chain) (rows : List Row) :
    rows.foldl (push cols) (chain.after before) = (rows.foldl (push cols) chain).after before := by
  induction rows generalizing chain with
  | nil => rfl
  | cons row rows ih => rw [foldl_cons, push_after, ih, foldl_cons]

theorem Chain.lines_after (chain : Chain) : (chain.after before).lines = before ++ chain.lines := by
  rw [lines, lines, after, append_assoc]

theorem Chain.finish_lines : flush chain.finish = chain.lines := by
  obtain ⟨result, current, full⟩ := chain
  cases current with
  | none => rfl
  | some previous => cases full <;> simp [flush, finish, lines]

variable (rows : List Row)

theorem Chain.resume :
    (rows.foldl (push cols) ((begin chain.finish.2).after chain.finish.1)).lines =
      (rows.foldl (push cols) chain).lines := by
  obtain ⟨result, current, full⟩ := chain
  have hheld (line : Row) :
      (begin (some line)).after result = ⟨result, some line, true⟩ := by
    simp [begin, after]
  induction rows with
  | nil =>
    show ((begin _).after _).lines = _
    rw [lines_after]
    exact finish_lines ⟨result, current, full⟩
  | cons row rows ih =>
    rw [foldl_cons, foldl_cons]
    by_cases hrow : row = []
    · rw [hrow, push_nil, push_nil]
      exact ih
    · -- the row goes to the held prefix, or ends the line that was given up already
      cases current with
      | none => simp [finish, begin, after, push, if_neg hrow]
      | some previous =>
        cases full with
        | true => simp only [finish, if_true, hheld]
        | false => simp [finish, begin, after, push, if_neg hrow]

theorem feed_lines (hcols : cols ≠ 0) (pending : Option Row) (batches : List (List Row)) :
    flush (feed cols pending batches) =
      (batches.flatten.foldl (Chain.push cols) (.begin pending)).lines := by
  induction batches generalizing pending with
  | nil =>
    show [] ++ pending.toList = _
    simp [Chain.begin, Chain.lines]
  | cons batch batches ih =>
    have hfirst : rejoinHardWrappedRowsStreaming pending batch cols =
        (batch.foldl (Chain.push cols) (.begin pending)).finish := if_neg hcols
    rw [feed, hfirst, flush, append_assoc]
    show _ ++ flush _ = _
    rw [ih, flatten_cons, foldl_append, ← Chain.lines_after, ← Chain.foldl_after, Chain.resume]

theorem rejoinHardWrappedLines_lines (hcols : cols ≠ 0) (lines : List Row) :
    rejoinHardWrappedLines lines cols =
      (lines.foldl (Chain.push cols) (.begin none)).lines := by
  rw [rejoinHardWrappedLines, rejoinHardWrappedRowsStreaming, if_neg hcols, Chain.finish_lines]

/-! ## The text -/

theorem Chain.push_text (row : Row) :
    (chain.push cols row).lines.flatten = chain.lines.flatten ++ row := by
  by_cases hrow : row = []
  · rw [hrow, push_nil, append_nil]
  · obtain ⟨result, current, full⟩ := chain
    cases current with
    | none => simp [push, lines, if_neg hrow]
    | some previous => cases full <;> simp [push, lines, if_neg hrow]

theorem Chain.foldl_text :
    (rows.foldl (push cols) chain).lines.flatten = chain.lines.flatten ++ rows.flatten := by
  induction rows generalizing chain with
  | nil => simp
  | cons row rows ih =>
    rw [foldl_cons, ih, push_text, append_assoc, flatten_cons]

/-- The lines of the batches and the prefix flushed in the end are the lines of all the rows,
and hold their text. -/
theorem feed_rejoins (hcols : 0 < cols) (batches : List (List Row)) :
    flush (feed cols none batches) = rejoinHardWrappedLines batches.flatten cols ∧
      (flush (feed cols none batches)).flatten = batches.flatten.flatten := by
  have hlines := feed_lines hcols.ne' none batches
  constructor
  · rw [hlines, rejoinHardWrappedLines_lines hcols.ne']
  · rw [hlines, Chain.foldl_text]
    rfl

theorem feed_rejoins_four :
    flush (feed 4 none [["word".toList], [[], "s a".toList, "more".toList]]) =
        rejoinHardWrappedLines [["word".toList], [[], "s a".toList, "more".toList]].flatten 4 ∧
      (flush (feed 4 none [["word".toList], [[], "s a".toList, "more".toList]])).flatten =
        [["word".toList], [[], "s a".toList, "more".toList]].flatten.flatten :=
  feed_rejoins (by decide) [["word".toList], [[], "s a".toList, "more".toList]]

/-! ## The lines -/

/-- The loop over rows that are not empty splits them after each row that is short of the
width: `group` are the rows, the last of them first, that have gone into the line begun. -/
theorem foldl_splitBy (hrows : ∀ row ∈ rows, row ≠ []) (row : Row) (group : List Row)
    (groups : List (List Row)) : (rows.foldl (Chain.push cols) ⟨groups.reverse.map List.flatten,
        some (row :: group).reverse.flatten, decide (cols ≤ row.length)⟩).lines =
      (List.splitBy.loop (fun row _ => decide (cols ≤ row.length)) rows row group groups).map
        List.flatten := by
  induction rows generalizing row group groups with
  | nil => simp [List.splitBy.loop, Chain.lines]
  | cons next rows ih =>
    obtain ⟨hnext, hrows⟩ := forall_mem_cons.mp hrows
    rw [foldl_cons, List.splitBy.loop]
    cases hfull : decide (cols ≤ row.length) with
    | true =>
      have hstep := ih hrows next (row :: group) groups
      rw [reverse_cons, flatten_append, flatten_singleton] at hstep
      simpa only [Chain.push, if_neg hnext, if_true] using hstep
    | false =>
      have hstep := ih hrows next [] ((row :: group).reverse :: groups)
      rw [reverse_cons, map_append] at hstep
      simpa [Chain.push, if_neg hnext] using hstep

/-- The lines are the rows that are not empty, split after each one short of the width. -/
theorem rejoinHardWrappedLines_splitBy (hcols : cols ≠ 0) (lines : List Row) :
    rejoinHardWrappedLines lines cols =
      ((lines.filter (· ≠ [])).splitBy (fun row _ => decide (cols ≤ row.length))).map
        List.flatten := by
  have hskip (chain : Chain) : lines.foldl (Chain.push cols) chain =
      (lines.filter (· ≠ [])).foldl (Chain.push cols) chain := by
    induction lines generalizing chain with
    | nil => rfl
    | cons row lines ih =>
      by_cases hrow : row = []
      · rw [foldl_cons, hrow, Chain.push_nil, filter_cons_of_neg (by simp), ih]
      · rw [foldl_cons, ih, filter_cons_of_pos (by simpa using hrow), foldl_cons]
  have hne : ∀ row ∈ lines.filter (· ≠ []), row ≠ [] := fun row hrow =>
    of_decide_eq_true (mem_filter.mp hrow).2
  rw [rejoinHardWrappedLines_lines hcols, hskip]
  cases hrows : lines.filter (· ≠ []) with
  | nil => rfl
  | cons row rows =>
    rw [hrows] at hne
    obtain ⟨hrow, hrows⟩ := forall_mem_cons.mp hne
    have hfirst := @foldl_splitBy cols rows hrows row [] []
    rw [foldl_cons]
    simpa [Chain.push, if_neg hrow, Chain.begin, List.splitBy] using hfirst

theorem rejoinHardWrappedLines_splitBy_four :
    rejoinHardWrappedLines ["word".toList, [], "s a".toList, "more".toList] 4 =
      ["words a".toList, "more".toList] :=
  rejoinHardWrappedLines_splitBy (by decide) ["word".toList, [], "s a".toList, "more".toList]

end Orkworksd.Peon.HardWrap
