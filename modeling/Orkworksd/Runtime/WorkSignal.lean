import Mathlib.Data.List.TakeWhile
import Orkworksd.Lib.Text
import Orkworksd.Peon.StripAnsi

/- The work signal of a submitted line (`session_runtime.rs`: `arm_pending_work_signal`,
   `consume_pending_work_signal`). The signal is armed with the line, whose echo the terminal
   still has to print; only visible output that is not that echo promotes the session.

   What is proved:
     1. `silent_iff`: the echo of a line is never taken for work, whenever its pieces arrive,
        exactly when the pieces keep in step with it (`InStep`).
     2. `echo_counts_as_work` (failing input): a blank that arrives on its own shows nothing, so
        it stays in the remaining echo, and the next word is taken for output.

   A piece of the echo that shows nothing, or that shows less than it is, is left in the
   remaining echo (`Stuck`), and no visible piece is the beginning of that. Times are in
   nanoseconds. -/
namespace Orkworksd.Runtime.WorkSignal
open Lib Text Ansi Peon List

structure PendingWorkSignal where
  remainingEcho : List Char
  expiresAt : Nat
  bannerGraceEndsAt : Nat
  deriving DecidableEq, Repr

/-- `WORK_SIGNAL_WINDOW`: ten seconds. -/
def workSignalWindow : Nat := 10 * 1000000000

def armPendingWorkSignal (submittedLine : List Char) (now bannerGrace : Nat) :
    PendingWorkSignal where
  remainingEcho := submittedLine
  expiresAt := now + workSignalWindow
  bannerGraceEndsAt := now + bannerGrace

def isVisible (c : Char) : Bool := !isWhitespace c && !isControl c

def hasVisibleCharacter (s : List Char) : Bool := s.any isVisible

def isNewline (c : Char) : Bool := c == '\r' || c == '\n'

/-- `strip_prefix('\r')`, or else `strip_prefix('\n')`. -/
def stripNewline (output : List Char) : List Char :=
  if output.head?.any isNewline then output.tail else output

/-- `str::strip_prefix`, or else the whole text. -/
def stripPrefix (echo output : List Char) : List Char :=
  if echo.isPrefixOf output then output.drop echo.length else output

def consumePendingWorkSignal (slot : Option PendingWorkSignal) (output : List Char) (now : Nat) :
    Option PendingWorkSignal × Bool :=
  match slot with
  | none => (none, false)
  | some signal =>
    if signal.expiresAt ≤ now then (none, false)
    else if hasVisibleCharacter (stripAnsi output) = false then (some signal, false)
    else
      let output := stripNewline (stripAnsi output)
      if output.isPrefixOf signal.remainingEcho then
        (some { signal with remainingEcho := signal.remainingEcho.drop output.length }, false)
      else if now < signal.bannerGraceEndsAt then (some signal, false)
      else if hasVisibleCharacter (trim (stripPrefix signal.remainingEcho output)) then (none, true)
      else (some { signal with remainingEcho := [] }, false)

/-! ## The echo of a line -/

/-- What may come before a piece of the echo. -/
inductive Lead where
  | none | cr | lf
  deriving DecidableEq, Repr

def Lead.chars : Lead → List Char
  | .none => []
  | .cr => ['\r']
  | .lf => ['\n']

/-- A piece of the line, as a chunk of output. -/
structure Piece where
  lead : Lead
  chunk : List Char
  deriving DecidableEq, Repr

def Piece.output (piece : Piece) : List Char := piece.lead.chars ++ piece.chunk

/-- The line that the pieces make up. -/
def lineOf (pieces : List Piece) : List Char := pieces.flatMap (fun piece => piece.chunk)

structure Delivery where
  piece : Piece
  now : Nat

def answers : Option PendingWorkSignal → List Delivery → List Bool
  | _, [] => []
  | slot, delivery :: deliveries =>
    let step := consumePendingWorkSignal slot delivery.piece.output delivery.now
    step.2 :: answers step.1 deliveries

/-- However the line was armed, its pieces are never taken for work, whenever they arrive inside
the window. -/
def Silent (pieces : List Piece) : Prop :=
  ∀ (armedAt bannerGrace : Nat) (deliveries : List Delivery),
    deliveries.map (fun delivery => delivery.piece) = pieces →
    (∀ delivery ∈ deliveries, armedAt ≤ delivery.now ∧ delivery.now < armedAt + workSignalWindow) →
    true ∉ answers (some (armPendingWorkSignal (lineOf pieces) armedAt bannerGrace)) deliveries

namespace Piece

/-- Whether the piece shows anything. -/
def Visible (piece : Piece) : Prop := hasVisibleCharacter (stripAnsi piece.output) = true

/-- What the piece is compared with the echo as. -/
def shown (piece : Piece) : List Char := stripNewline (stripAnsi piece.output)

/-- The piece is taken out of the echo as it is. -/
def Echoed (piece : Piece) : Prop :=
  (piece.Visible ∧ piece.shown = piece.chunk) ∨ (¬piece.Visible ∧ piece.chunk = [])

end Piece

/-- The pieces keep in step with the echo: a visible piece shows the beginning of what is left,
and nothing visible comes after a piece that is not taken out of the echo as it is. -/
def InStep : List Piece → Prop
  | [] => True
  | piece :: later =>
    (piece.Visible → piece.shown <+: piece.chunk ++ lineOf later) ∧
      (piece.Echoed → InStep later) ∧
      (¬piece.Echoed → ∀ next ∈ later, ¬next.Visible)

/-! ## What is visible -/

variable (x : List Char)

theorem visible_append (y : List Char) :
    hasVisibleCharacter (x ++ y) = (hasVisibleCharacter x || hasVisibleCharacter y) :=
  any_append

theorem visible_of_part {x y : List Char} (h : x <+: y) (hx : hasVisibleCharacter x = true) :
    hasVisibleCharacter y = true := by
  obtain ⟨rest, rfl⟩ := h
  rw [visible_append, hx, Bool.true_or]

variable {c : Char}

theorem newline_invisible (h : isNewline c = true) : isVisible c = false := by
  cases Bool.or_eq_true_iff.mp h with
  | inl heq => rw [beq_iff_eq.mp heq]; decide
  | inr heq => rw [beq_iff_eq.mp heq]; decide

theorem stripNewline_cases :
    stripNewline x = x ∨ ∃ c, isNewline c = true ∧ x = c :: stripNewline x := by
  cases x with
  | nil => exact .inl rfl
  | cons c tail =>
    by_cases hc : isNewline c = true
    · have hcut : stripNewline (c :: tail) = tail := if_pos hc
      exact .inr ⟨c, hc, by rw [hcut]⟩
    · exact .inl (if_neg hc)

theorem visible_stripNewline : hasVisibleCharacter (stripNewline x) = hasVisibleCharacter x := by
  cases stripNewline_cases x with
  | inl heq => rw [heq]
  | inr hcut =>
    obtain ⟨c, hc, heq⟩ := hcut
    calc hasVisibleCharacter (stripNewline x)
        = (isVisible c || hasVisibleCharacter (stripNewline x)) := by
          rw [newline_invisible hc, Bool.false_or]
      _ = hasVisibleCharacter (c :: stripNewline x) := rfl
      _ = hasVisibleCharacter x := by rw [← heq]

theorem mem_dropWhile {p : Char → Bool} {x : List Char} (hc : c ∈ x) (hp : p c = false) :
    c ∈ x.dropWhile p := by
  rw [← takeWhile_append_dropWhile (p := p) (l := x)] at hc
  cases mem_append.mp hc with
  | inl htake =>
    have := mem_takeWhile_imp htake
    rw [hp] at this
    cases this
  | inr hdrop => exact hdrop

theorem visible_trim {x : List Char} (h : hasVisibleCharacter x = true) :
    hasVisibleCharacter (trim x) = true := by
  obtain ⟨c, hc, hvisible⟩ := any_eq_true.mp h
  have hspace : isWhitespace c = false := by
    rw [isVisible, Bool.and_eq_true, Bool.not_eq_true'] at hvisible
    exact hvisible.1
  refine any_eq_true.mpr ⟨c, ?_, hvisible⟩
  exact mem_reverse.mpr (mem_dropWhile (mem_reverse.mpr (mem_dropWhile hc hspace)) hspace)

/-- How many invisible characters the text begins with. -/
def blanks (x : List Char) : Nat := (x.takeWhile (fun c => !isVisible c)).length

theorem blanks_visible {x : List Char} (h : hasVisibleCharacter x = true) (y : List Char) :
    blanks (x ++ y) = blanks x := by
  induction x with
  | nil => cases h
  | cons c x ih =>
    by_cases hc : isVisible c = true
    · simp [blanks, hc]
    · have hx : hasVisibleCharacter x = true := by
        rw [hasVisibleCharacter, any_cons, Bool.or_eq_true] at h
        exact h.resolve_left hc
      have hstep : ∀ z, blanks (c :: z) = blanks z + 1 := by
        intro z
        simp [blanks, hc]
      rw [cons_append, hstep, hstep, ih hx]

theorem blanks_invisible {x : List Char} (h : hasVisibleCharacter x = false) (y : List Char) :
    blanks (x ++ y) = x.length + blanks y := by
  induction x with
  | nil => rw [nil_append, length_nil, Nat.zero_add]
  | cons c x ih =>
    rw [hasVisibleCharacter, any_cons, Bool.or_eq_false_iff] at h
    have hstep : ∀ z, blanks (c :: z) = blanks z + 1 := by
      intro z
      simp [blanks, h.1]
    rw [cons_append, hstep, ih h.2, length_cons]
    omega

theorem blanks_stripNewline_le : blanks (stripNewline x) ≤ blanks x := by
  cases stripNewline_cases x with
  | inl heq => exact Nat.le_of_eq (congrArg blanks heq)
  | inr hcut =>
    obtain ⟨c, hc, heq⟩ := hcut
    have hstep : blanks (c :: stripNewline x) = blanks (stripNewline x) + 1 := by
      simp [blanks, newline_invisible hc]
    rw [← heq] at hstep
    omega

/-! ## What a piece shows -/

/-- The part of a text before its first escape sequence. -/
def plainPart (x : List Char) : List Char := x.takeWhile (fun c => decide (c ≠ esc))

theorem plainPart_split : (esc ∉ x ∧ plainPart x = x) ∨ ∃ rest, x = plainPart x ++ esc :: rest := by
  induction x with
  | nil => exact .inl ⟨not_mem_nil, rfl⟩
  | cons c x ih =>
    by_cases hc : c = esc
    · refine .inr ⟨x, ?_⟩
      rw [plainPart, takeWhile_cons_of_neg (by rw [hc]; decide), hc, nil_append]
    · have hpart : plainPart (c :: x) = c :: plainPart x :=
        takeWhile_cons_of_pos (decide_eq_true hc)
      rw [hpart]
      cases ih with
      | inl hplain =>
        refine .inl ⟨not_mem_cons_of_ne_of_not_mem (Ne.symm hc) hplain.1, ?_⟩
        rw [hplain.2]
      | inr hsplit =>
        obtain ⟨rest, heq⟩ := hsplit
        exact .inr ⟨rest, congrArg (c :: ·) heq⟩

theorem esc_notMem_plainPart : esc ∉ plainPart x := by
  intro h
  have := mem_takeWhile_imp h
  simp at this

variable {rest : List Char}

theorem prefix_before_esc {o x : List Char} (ho : esc ∉ o) (h : o <+: x ++ esc :: rest) :
    o <+: x := by
  cases prefix_or_prefix_of_prefix h (prefix_append x (esc :: rest)) with
  | inl h => exact h
  | inr hx =>
    obtain ⟨more, rfl⟩ := hx
    have hmore := (prefix_append_right_inj x).mp h
    cases more with
    | nil => exact ⟨[], by rw [append_nil, append_nil]⟩
    | cons c more =>
      have hc : c = esc := (cons_prefix_cons.mp hmore).1
      exact absurd (mem_append_right x (hc ▸ mem_cons_self)) ho

theorem stripAnsi_plainPart :
    ∃ more, stripAnsi x = plainPart x ++ more ∧ (esc ∉ x → more = []) := by
  have hstrip (y : List Char) : stripAnsi y = Ansi.shown (cursorOutput false) .ground y :=
    stripAnsi_eq false y
  cases plainPart_split x with
  | inl hplain =>
    refine ⟨[], ?_, fun _ => rfl⟩
    rw [hplain.2, hstrip, shown_plain hplain.1, append_nil]
  | inr hsplit =>
    obtain ⟨rest, heq⟩ := hsplit
    refine ⟨Ansi.shown (cursorOutput false) .ground (esc :: rest), ?_, fun hesc => ?_⟩
    · rw [hstrip]
      nth_rewrite 1 [heq]
      rw [shown_append, shown_plain (esc_notMem_plainPart x), after_plain (esc_notMem_plainPart x)]
    · exact absurd (heq ▸ mem_append_right _ mem_cons_self) hesc

theorem stripAnsi_lead (lead : Lead) (x : List Char) :
    stripAnsi (lead.chars ++ x) = lead.chars ++ stripAnsi x := by
  have hplain : esc ∉ lead.chars := by cases lead <;> decide
  show stripAnsiWithCursorMode false _ = _ ++ stripAnsiWithCursorMode false _
  rw [stripAnsi_eq, stripAnsi_eq, shown_append, shown_plain hplain, after_plain hplain]

section piece
variable (piece : Piece)

theorem shown_eq : piece.shown = stripAnsi piece.chunk ∨
    piece.shown = stripNewline (stripAnsi piece.chunk) := by
  rw [Piece.shown, Piece.output, stripAnsi_lead]
  cases piece.lead with
  | none => exact .inr rfl
  | cr => exact .inl rfl
  | lf => exact .inl rfl

theorem esc_notMem_shown : esc ∉ piece.shown := by
  have hstrip : esc ∉ stripAnsi piece.chunk := by
    show esc ∉ stripAnsiWithCursorMode false _
    rw [stripAnsi_eq]
    exact Ansi.esc_notMem_shown (esc_notMem_cursorOutput false) _ _
  cases shown_eq piece with
  | inl heq => rw [heq]; exact hstrip
  | inr heq =>
    rw [heq]
    cases stripNewline_cases (stripAnsi piece.chunk) with
    | inl hsame => rw [hsame]; exact hstrip
    | inr hcut =>
      obtain ⟨c, -, hcut⟩ := hcut
      rw [hcut] at hstrip
      exact fun hmem => hstrip (mem_cons_of_mem c hmem)

theorem length_shown_le : piece.shown.length ≤ piece.chunk.length := by
  have hstrip : (stripAnsi piece.chunk).length ≤ piece.chunk.length := by
    show (stripAnsiWithCursorMode false _).length ≤ _
    rw [stripAnsi_eq]
    exact Ansi.length_shown_le (length_cursorOutput_le false) _ _
  cases shown_eq piece with
  | inl heq => rw [heq]; exact hstrip
  | inr heq =>
    rw [heq]
    cases stripNewline_cases (stripAnsi piece.chunk) with
    | inl hsame => rw [hsame]; exact hstrip
    | inr hcut =>
      obtain ⟨c, -, hcut⟩ := hcut
      have hlength := congrArg List.length hcut
      rw [length_cons] at hlength
      omega

variable {piece}

theorem visible_shown (h : piece.Visible) : hasVisibleCharacter piece.shown = true := by
  rw [Piece.shown, visible_stripNewline]
  exact h

/-- A visible piece shows no more blanks in front than its chunk, unless all that is visible
comes after an escape sequence. -/
theorem blanks_shown_le (h : hasVisibleCharacter (plainPart piece.chunk) = true) :
    blanks piece.shown ≤ blanks (plainPart piece.chunk) := by
  obtain ⟨more, hstrip, -⟩ := stripAnsi_plainPart piece.chunk
  have hblanks : blanks (stripAnsi piece.chunk) = blanks (plainPart piece.chunk) := by
    rw [hstrip, blanks_visible h]
  cases shown_eq piece with
  | inl heq => rw [heq, hblanks]
  | inr heq =>
    rw [heq, ← hblanks]
    exact blanks_stripNewline_le _

end piece

/-! ## Out of step -/

/-- What a piece has left in the echo: something, and nothing visible before an ESC. -/
structure Stuck (left : List Char) : Prop where
  nonempty : left ≠ []
  invisible : hasVisibleCharacter (plainPart left) = false

variable {left : List Char}

variable {piece : Piece}

theorem Stuck.not_prefix (hleft : Stuck left) (h : piece.Visible) (rest : List Char) :
    ¬piece.shown <+: left ++ piece.chunk ++ rest := by
  intro hbegins
  have hshown := visible_shown h
  have hesc := esc_notMem_shown piece
  rw [append_assoc] at hbegins
  cases plainPart_split left with
  | inr hsplit =>
    obtain ⟨more, heq⟩ := hsplit
    rw [heq, append_assoc, cons_append] at hbegins
    have hvisible := visible_of_part (prefix_before_esc hesc hbegins) hshown
    rw [hleft.invisible] at hvisible
    cases hvisible
  | inl hplain =>
    have hinvisible : hasVisibleCharacter left = false := hplain.2 ▸ hleft.invisible
    have hblanks : blanks piece.shown = left.length + blanks (piece.chunk ++ rest) := by
      obtain ⟨after, heq⟩ := hbegins
      rw [← blanks_invisible hinvisible, ← heq, blanks_visible hshown]
    have hpos := length_pos_of_ne_nil hleft.nonempty
    cases hpart : hasVisibleCharacter (plainPart piece.chunk) with
    | true =>
      have hle := blanks_shown_le hpart
      have hchunk : blanks (piece.chunk ++ rest) = blanks (plainPart piece.chunk) := by
        rw [blanks_visible (visible_of_part (List.takeWhile_prefix _) hpart)]
        obtain ⟨more, heq⟩ := List.takeWhile_prefix (l := piece.chunk) (fun c => decide (c ≠ esc))
        rw [← blanks_visible hpart more, plainPart, heq]
      omega
    | false =>
      cases plainPart_split piece.chunk with
      | inl hchunk =>
        -- all of the chunk is plain, so it shows nothing
        obtain ⟨more, hstrip, hmore⟩ := stripAnsi_plainPart piece.chunk
        rw [hmore hchunk.1, append_nil] at hstrip
        have hvisible : hasVisibleCharacter piece.shown = false := by
          cases shown_eq piece with
          | inl heq => rw [heq, hstrip, hpart]
          | inr heq => rw [heq, visible_stripNewline, hstrip, hpart]
        rw [hshown] at hvisible
        cases hvisible
      | inr hchunk =>
        obtain ⟨more, heq⟩ := hchunk
        rw [heq, append_assoc, cons_append, ← append_assoc] at hbegins
        have hvisible := visible_of_part (prefix_before_esc hesc hbegins) hshown
        rw [visible_append, hinvisible, hpart] at hvisible
        cases hvisible

theorem stuck_of_invisible (h : ¬piece.Visible) (hchunk : piece.chunk ≠ []) :
    Stuck piece.chunk := by
  refine ⟨hchunk, ?_⟩
  obtain ⟨more, hstrip, -⟩ := stripAnsi_plainPart piece.chunk
  have hinvisible := Bool.eq_false_iff.mpr h
  rw [Piece.output, stripAnsi_lead, hstrip, visible_append, visible_append,
    Bool.or_eq_false_iff, Bool.or_eq_false_iff] at hinvisible
  exact hinvisible.2.1

theorem Stuck.append (hleft : Stuck left) (h : ¬piece.Visible) :
    Stuck (left ++ piece.chunk) := by
  by_cases hchunk : piece.chunk = []
  · rw [hchunk, append_nil]
    exact hleft
  · refine ⟨append_ne_nil_of_left_ne_nil hleft.nonempty _, ?_⟩
    cases plainPart_split left with
    | inl hplain =>
      have hpart : plainPart (left ++ piece.chunk) = left ++ plainPart piece.chunk := by
        refine takeWhile_append_of_pos fun c hc => decide_eq_true fun heq => ?_
        exact hplain.1 (heq ▸ hc)
      rw [hpart, visible_append, (stuck_of_invisible h hchunk).invisible, Bool.or_false, ← hplain.2]
      exact hleft.invisible
    | inr hsplit =>
      obtain ⟨more, heq⟩ := hsplit
      have hplain : ∀ c ∈ plainPart left, decide (c ≠ esc) = true := fun c hc =>
        decide_eq_true (fun hesc => esc_notMem_plainPart left (hesc ▸ hc))
      have hpart : plainPart (left ++ piece.chunk) = plainPart left := by
        nth_rewrite 1 [heq]
        rw [append_assoc, cons_append, plainPart, takeWhile_append_of_pos hplain,
          takeWhile_cons_of_neg (by decide), append_nil]
      rw [hpart]
      exact hleft.invisible

theorem stuck_of_shown (h : piece.Visible) (hbegins : piece.shown <+: piece.chunk ++ rest)
    (hne : piece.shown ≠ piece.chunk) :
    ∃ left, piece.chunk = piece.shown ++ left ∧ Stuck left := by
  have hshown := visible_shown h
  have hesc := esc_notMem_shown piece
  have hchunk : piece.shown <+: piece.chunk :=
    prefix_of_prefix_length_le hbegins (prefix_append _ _) (length_shown_le piece)
  have hpart : piece.shown <+: plainPart piece.chunk := by
    cases plainPart_split piece.chunk with
    | inl hplain => exact hplain.2.symm ▸ hchunk
    | inr hsplit =>
      obtain ⟨more, heq⟩ := hsplit
      rw [heq] at hchunk
      exact prefix_before_esc hesc hchunk
  have hvisible := visible_of_part hpart hshown
  obtain ⟨more, hstrip, -⟩ := stripAnsi_plainPart piece.chunk
  -- a line break that is cut off is missing among the blanks in front
  have hwhole : piece.shown = stripAnsi piece.chunk := by
    cases shown_eq piece with
    | inl heq => exact heq
    | inr heq =>
      cases stripNewline_cases (stripAnsi piece.chunk) with
      | inl hsame => exact heq.trans hsame
      | inr hcut =>
        obtain ⟨c, hc, hcut⟩ := hcut
        rw [← heq] at hcut
        obtain ⟨after, hafter⟩ := hpart
        have hblanks : blanks (stripAnsi piece.chunk) = blanks piece.shown := by
          rw [hstrip, blanks_visible hvisible, ← hafter, blanks_visible hshown]
        have hmore : blanks (c :: piece.shown) = blanks piece.shown + 1 := by
          simp [blanks, newline_invisible hc]
        rw [← hcut] at hmore
        omega
  have hplain : piece.shown = plainPart piece.chunk := by
    refine hpart.eq_of_length_le ?_
    rw [hwhole, hstrip, length_append]
    exact Nat.le_add_right _ _
  cases plainPart_split piece.chunk with
  | inl hsame => exact absurd (hplain.trans hsame.2) hne
  | inr hsplit =>
    obtain ⟨after, heq⟩ := hsplit
    refine ⟨esc :: after, by rw [hplain]; exact heq, cons_ne_nil _ _, ?_⟩
    rw [plainPart, takeWhile_cons_of_neg (by decide)]
    rfl

/-! ## One step -/

section step
variable {signal : PendingWorkSignal} {piece : Piece} {now : Nat}

theorem consume_invisible (hnow : now < signal.expiresAt) (h : ¬piece.Visible) :
    consumePendingWorkSignal (some signal) piece.output now = (some signal, false) := by
  rw [consumePendingWorkSignal, if_neg (Nat.not_le.mpr hnow), if_pos (Bool.eq_false_iff.mpr h)]

theorem consume_beginning (hnow : now < signal.expiresAt) (h : piece.Visible)
    (hbegins : piece.shown <+: signal.remainingEcho) :
    consumePendingWorkSignal (some signal) piece.output now =
      (some { signal with
        remainingEcho := signal.remainingEcho.drop piece.shown.length }, false) := by
  rw [consumePendingWorkSignal, if_neg (Nat.not_le.mpr hnow), if_neg (ne_false_of_eq_true h)]
  exact if_pos (List.isPrefixOf_iff_prefix.mpr hbegins)

theorem consume_other (hnow : now < signal.expiresAt) (hgrace : signal.bannerGraceEndsAt ≤ now)
    (h : piece.Visible) (hbegins : ¬piece.shown <+: signal.remainingEcho)
    (hlength : piece.shown.length ≤ signal.remainingEcho.length) :
    consumePendingWorkSignal (some signal) piece.output now = (none, true) := by
  have hstrip : stripPrefix signal.remainingEcho piece.shown = piece.shown := by
    refine if_neg fun hecho => ?_
    have hecho := List.isPrefixOf_iff_prefix.mp hecho
    exact hbegins (hecho.eq_of_length_le hlength ▸ prefix_refl _)
  have htrim := visible_trim (visible_shown h)
  rw [← hstrip] at htrim
  rw [consumePendingWorkSignal, if_neg (Nat.not_le.mpr hnow), if_neg (ne_false_of_eq_true h)]
  show (if piece.shown.isPrefixOf signal.remainingEcho = true then _ else _) = _
  rw [if_neg (fun hecho => hbegins (List.isPrefixOf_iff_prefix.mp hecho)),
    if_neg (Nat.not_lt.mpr hgrace)]
  exact if_pos htrim

end step

/-! ## A whole line -/

variable {deliveries : List Delivery}

variable {signal : PendingWorkSignal}

theorem answers_invisible (hnow : ∀ delivery ∈ deliveries, delivery.now < signal.expiresAt)
    (h : ∀ delivery ∈ deliveries, ¬delivery.piece.Visible) :
    true ∉ answers (some signal) deliveries := by
  induction deliveries with
  | nil => exact not_mem_nil
  | cons delivery deliveries ih =>
    rw [forall_mem_cons] at hnow h
    rw [answers, consume_invisible hnow.1 h.1]
    exact not_mem_cons_of_ne_of_not_mem Bool.false_ne_true.symm (ih hnow.2 h.2)

theorem answers_inStep (hnow : ∀ delivery ∈ deliveries, delivery.now < signal.expiresAt)
    (hecho : signal.remainingEcho = lineOf (deliveries.map (fun delivery => delivery.piece)))
    (h : InStep (deliveries.map (fun delivery => delivery.piece))) :
    true ∉ answers (some signal) deliveries := by
  induction deliveries generalizing signal with
  | nil => exact not_mem_nil
  | cons delivery deliveries ih =>
    obtain ⟨hbegins, hkept, hleft⟩ := h
    rw [forall_mem_cons] at hnow
    rw [map_cons, lineOf, flatMap_cons] at hecho
    rw [answers]
    -- what is left of the echo only matters while the piece was taken out as it is
    have hrest {echo : List Char} (hpiece : delivery.piece.Echoed →
        echo = lineOf (deliveries.map (fun delivery => delivery.piece))) :
        true ∉ answers (some { signal with remainingEcho := echo }) deliveries := by
      by_cases hechoed : delivery.piece.Echoed
      · exact ih hnow.2 (hpiece hechoed) (hkept hechoed)
      · refine answers_invisible hnow.2 fun next hnext => hleft hechoed next.piece ?_
        exact mem_map.mpr ⟨next, hnext, rfl⟩
    by_cases hvisible : delivery.piece.Visible
    · have hbegin := hbegins hvisible
      rw [lineOf, ← hecho] at hbegin
      rw [consume_beginning hnow.1 hvisible hbegin]
      refine not_mem_cons_of_ne_of_not_mem Bool.false_ne_true.symm (hrest fun hechoed => ?_)
      have hshown : delivery.piece.shown = delivery.piece.chunk :=
        hechoed.elim (fun hpiece => hpiece.2) (fun hpiece => absurd hvisible hpiece.1)
      rw [hecho, hshown, drop_left]
      rfl
    · rw [consume_invisible hnow.1 hvisible]
      refine not_mem_cons_of_ne_of_not_mem Bool.false_ne_true.symm (hrest fun hechoed => ?_)
      have hchunk : delivery.piece.chunk = [] :=
        hechoed.elim (fun hpiece => absurd hpiece.1 hvisible) (fun hpiece => hpiece.2)
      rw [hecho, hchunk]
      rfl

section late
variable {now : Nat}

/-- The pieces, all of them delivered at one time. -/
def atOnce (pieces : List Piece) (now : Nat) : List Delivery :=
  pieces.map (fun piece => ⟨piece, now⟩)

variable {pieces : List Piece}

theorem answers_stuck (hnow : now < signal.expiresAt) (hgrace : signal.bannerGraceEndsAt ≤ now)
    (hleft : Stuck left) (hecho : signal.remainingEcho = left ++ lineOf pieces)
    (h : ∃ piece ∈ pieces, piece.Visible) :
    true ∈ answers (some signal) (atOnce pieces now) := by
  induction pieces generalizing left with
  | nil =>
    obtain ⟨piece, hmem, -⟩ := h
    cases hmem
  | cons piece later ih =>
    rw [lineOf, flatMap_cons, ← append_assoc] at hecho
    rw [atOnce, map_cons, answers]
    by_cases hvisible : piece.Visible
    · have hlength : piece.shown.length ≤ signal.remainingEcho.length := by
        have hpiece := length_shown_le piece
        rw [hecho, length_append, length_append]
        omega
      have hother := consume_other hnow hgrace hvisible
        (by rw [hecho]; exact hleft.not_prefix hvisible _) hlength
      simp only [hother]
      exact mem_cons_self
    · simp only [consume_invisible hnow hvisible]
      refine mem_cons_of_mem _ (ih (hleft.append hvisible) hecho ?_)
      obtain ⟨next, hmem, hnext⟩ := h
      cases mem_cons.mp hmem with
      | inl heq => exact absurd (heq ▸ hnext) hvisible
      | inr hmem => exact ⟨next, hmem, hnext⟩

theorem answers_outOfStep (hnow : now < signal.expiresAt)
    (hgrace : signal.bannerGraceEndsAt ≤ now) (hecho : signal.remainingEcho = lineOf pieces)
    (h : ¬InStep pieces) : true ∈ answers (some signal) (atOnce pieces now) := by
  induction pieces generalizing signal with
  | nil => exact absurd trivial h
  | cons piece later ih =>
    rw [lineOf, flatMap_cons] at hecho
    rw [atOnce, map_cons, answers]
    by_cases hvisible : piece.Visible
    · by_cases hbegin : piece.shown <+: piece.chunk ++ lineOf later
      · simp only [consume_beginning hnow hvisible (hecho ▸ hbegin)]
        refine mem_cons_of_mem _ ?_
        by_cases hshown : piece.shown = piece.chunk
        · have hechoed : piece.Echoed := .inl ⟨hvisible, hshown⟩
          refine ih hnow hgrace ?_ fun hlater => h ⟨fun _ => hbegin, fun _ => hlater,
            fun hnot => absurd hechoed hnot⟩
          rw [hecho, hshown, drop_left]
          rfl
        · obtain ⟨left, hchunk, hleft⟩ := stuck_of_shown hvisible hbegin hshown
          have hnot : ¬piece.Echoed := fun hechoed =>
            hechoed.elim (fun hpiece => hshown hpiece.2) (fun hpiece => hpiece.1 hvisible)
          refine answers_stuck hnow hgrace hleft ?_ ?_
          · rw [hecho, hchunk, append_assoc, drop_left]
            rfl
          · by_contra hnone
            refine h ⟨fun _ => hbegin, fun hechoed => absurd hechoed hnot,
              fun _ next hnext hsee => ?_⟩
            exact hnone ⟨next, hnext, hsee⟩
      · have hlength : piece.shown.length ≤ signal.remainingEcho.length := by
          have hpiece := length_shown_le piece
          rw [hecho, length_append]
          omega
        have hother := consume_other hnow hgrace hvisible (by rw [hecho]; exact hbegin) hlength
        simp only [hother]
        exact mem_cons_self
    · simp only [consume_invisible hnow hvisible]
      refine mem_cons_of_mem _ ?_
      by_cases hchunk : piece.chunk = []
      · have hechoed : piece.Echoed := .inr ⟨hvisible, hchunk⟩
        refine ih hnow hgrace ?_ fun hlater => h ⟨fun hsee => absurd hsee hvisible,
          fun _ => hlater, fun hnot => absurd hechoed hnot⟩
        rw [hecho, hchunk]
        rfl
      · have hnot : ¬piece.Echoed := fun hechoed =>
          hechoed.elim (fun hpiece => hvisible hpiece.1) (fun hpiece => hchunk hpiece.2)
        refine answers_stuck hnow hgrace (stuck_of_invisible hvisible hchunk) hecho ?_
        by_contra hnone
        refine h ⟨fun hsee => absurd hsee hvisible, fun hechoed => absurd hechoed hnot,
          fun _ next hnext hsee => ?_⟩
        exact hnone ⟨next, hnext, hsee⟩

end late

/-- The echo of a line is never taken for work exactly when its pieces keep in step with it. -/
theorem silent_iff (pieces : List Piece) : Silent pieces ↔ InStep pieces := by
  constructor
  · intro hsilent
    by_contra hout
    have hwindow : 0 < workSignalWindow := by decide
    refine hsilent 0 0 (atOnce pieces 0) ?_ ?_
      (answers_outOfStep (Nat.lt_add_of_pos_right hwindow) (Nat.le_refl 0) rfl hout)
    · rw [atOnce, map_map]
      exact map_id pieces
    · intro delivery hmem
      obtain ⟨piece, -, rfl⟩ := mem_map.mp hmem
      exact ⟨Nat.le_refl 0, Nat.lt_add_of_pos_right hwindow⟩
  · intro hstep armedAt bannerGrace deliveries hpieces hnow
    subst hpieces
    exact answers_inStep (fun delivery hmem => (hnow delivery hmem).2) rfl hstep

/-- `a b`, one character at a time. -/
def samplePieces : List Piece := [⟨.none, ['a']⟩, ⟨.none, [' ']⟩, ⟨.none, ['b']⟩]

/-- The blank stays in the echo, and `b` is taken for work. -/
theorem echo_counts_as_work : ¬∀ pieces, Silent pieces := by
  intro h
  refine h samplePieces 0 0 (atOnce samplePieces 1) rfl ?_ (by decide)
  intro delivery hmem
  obtain ⟨piece, -, rfl⟩ := mem_map.mp hmem
  exact ⟨Nat.zero_le 1, by show 1 < 0 + workSignalWindow; decide⟩

end Orkworksd.Runtime.WorkSignal
