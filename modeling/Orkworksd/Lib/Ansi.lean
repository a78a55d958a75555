import Mathlib.Data.List.Basic

/- Terminal escape sequences, read one character at a time.

   A reader is on the ground or inside a sequence: a control sequence up to its final
   character, a string up to its terminator, or one more character to pass over. `after` is
   the mode it is left in and `shown` what it puts out: the characters on the ground, and
   whatever a control sequence is shown as (`display`). An ESC inside a string ends it, and
   what follows is the rest of a terminator or a sequence of its own. -/
namespace Orkworksd.Lib.Ansi
open List

def esc : Char := Char.ofNat 0x1b
def bel : Char := Char.ofNat 0x07

inductive Mode where
  | ground
  /-- After ESC. -/
  | escape
  | csi
  /-- An operating system command, which BEL ends too. -/
  | osc
  /-- A device control, start-of-string, privacy or application program string. -/
  | string
  /-- After ESC in a string. -/
  | closing
  /-- One character is passed over. -/
  | one
  deriving DecidableEq, Repr

/-- The characters that begin a string which BEL does not end. -/
def stringKinds : List Char := ['P', 'X', '^', '_']

/-- The characters after which one more is passed over. -/
def oneKinds : List Char := ['O', '(', ')', '%']

/-- The characters that end a control sequence. -/
def isFinal (c : Char) : Bool := '@' ≤ c && c ≤ '~'

def begin (c : Char) : Mode :=
  if c = '[' then .csi
  else if c = ']' then .osc
  else if c ∈ stringKinds then .string
  else if c ∈ oneKinds then .one
  else .ground

def next (m : Mode) (c : Char) : Mode :=
  match m with
  | .ground => if c = esc then .escape else .ground
  | .escape => begin c
  | .csi => if isFinal c then .ground else .csi
  | .osc => if c = bel then .ground else if c = esc then .closing else .osc
  | .string => if c = esc then .closing else .string
  | .closing => if c = '\\' then .ground else begin c
  | .one => .ground

def after (m : Mode) (chars : List Char) : Mode := chars.foldl next m

section display
variable (display : Char → List Char)

def out (m : Mode) (c : Char) : List Char :=
  match m with
  | .ground => if c = esc then [] else [c]
  | .csi => if isFinal c then display c else []
  | _ => []

def shown : Mode → List Char → List Char
  | _, [] => []
  | m, c :: chars => out display m c ++ shown (next m c) chars

end display

variable {display : Char → List Char}

variable (m : Mode)

@[simp] theorem after_nil : after m [] = m := rfl

variable (c : Char) (chars : List Char)

@[simp] theorem after_cons : after m (c :: chars) = after (next m c) chars := rfl

variable (x y : List Char)

theorem after_append : after m (x ++ y) = after (after m x) y :=
  foldl_append

@[simp] theorem shown_nil : shown display m [] = [] := by
  cases m <;> rfl

theorem shown_cons :
    shown display m (c :: chars) = out display m c ++ shown display (next m c) chars := by
  cases m <;> rfl

theorem shown_append :
    shown display m (x ++ y) = shown display m x ++ shown display (after m x) y := by
  induction x generalizing m with
  | nil => rw [nil_append, shown_nil, after_nil, nil_append]
  | cons c x ih => rw [cons_append, shown_cons, shown_cons, ih, after_cons, append_assoc]

theorem shown_plain {chars : List Char} (h : esc ∉ chars) : shown display .ground chars = chars := by
  induction chars with
  | nil => rfl
  | cons c chars ih =>
    obtain ⟨hc, hchars⟩ := ne_and_not_mem_of_not_mem_cons h
    rw [shown_cons, out, next, if_neg (Ne.symm hc), if_neg (Ne.symm hc), ih hchars]
    rfl

theorem after_plain {chars : List Char} (h : esc ∉ chars) : after .ground chars = .ground := by
  induction chars with
  | nil => rfl
  | cons c chars ih =>
    obtain ⟨hc, hchars⟩ := ne_and_not_mem_of_not_mem_cons h
    rw [after_cons, next, if_neg (Ne.symm hc), ih hchars]

theorem esc_notMem_shown (hdisplay : ∀ c, esc ∉ display c) (m : Mode) (chars : List Char) :
    esc ∉ shown display m chars := by
  induction chars generalizing m with
  | nil =>
    rw [shown_nil]
    exact not_mem_nil
  | cons c chars ih =>
    rw [shown_cons, mem_append, not_or]
    refine ⟨?_, ih _⟩
    cases m with
    | ground =>
      rw [out]
      split
      · exact not_mem_nil
      · next hc => exact fun hmem => hc (mem_singleton.mp hmem).symm
    | csi =>
      rw [out]
      split
      · exact hdisplay c
      · exact not_mem_nil
    | _ => exact not_mem_nil

theorem length_shown_le (hdisplay : ∀ c, (display c).length ≤ 1) (m : Mode) (chars : List Char) :
    (shown display m chars).length ≤ chars.length := by
  induction chars generalizing m with
  | nil => exact Nat.le_of_eq (congrArg List.length (shown_nil m))
  | cons c chars ih =>
    have hout : (out display m c).length ≤ 1 := by
      cases m with
      | ground =>
        rw [out]
        split
        · exact Nat.zero_le 1
        · exact Nat.le_refl 1
      | csi =>
        rw [out]
        split
        · exact hdisplay c
        · exact Nat.zero_le 1
      | _ => exact Nat.zero_le 1
    rw [shown_cons, length_append, length_cons]
    have hrest := ih (next m c)
    omega

/-- An ESC that begins a sequence: one that another character than a backslash follows. -/
def BareEsc (chars : List Char) : Prop :=
  chars.head? = some esc ∧ chars.tail ≠ [] ∧ chars.tail.head? ≠ some '\\'

instance (chars : List Char) : Decidable (BareEsc chars) :=
  inferInstanceAs (Decidable (chars.head? = some esc ∧ chars.tail ≠ [] ∧ chars.tail.head? ≠ some '\\'))

/-- A reader in mode `m` reads `chars` from the ground up: no sequence is open, or a bare ESC
ends the string that is. -/
def Anew (m : Mode) (chars : List Char) : Prop :=
  m = .ground ∨ ((m = .osc ∨ m = .string) ∧ BareEsc chars)

instance (m : Mode) (chars : List Char) : Decidable (Anew m chars) :=
  inferInstanceAs (Decidable (m = .ground ∨ ((m = .osc ∨ m = .string) ∧ BareEsc chars)))

theorem BareEsc.eq_cons {chars : List Char} (h : BareEsc chars) :
    ∃ c rest, chars = esc :: c :: rest ∧ c ≠ '\\' := by
  obtain ⟨hhead, htail, hne⟩ := h
  obtain ⟨rest, rfl⟩ := List.head?_eq_some_iff.mp hhead
  obtain ⟨c, rest, rfl⟩ := exists_cons_of_ne_nil htail
  exact ⟨c, rest, rfl, fun hc => hne (congrArg some hc)⟩

theorem bareEsc_cons {c : Char} (h : c ≠ '\\') (chars : List Char) : BareEsc (esc :: c :: chars) :=
  ⟨rfl, cons_ne_nil c chars, fun hc => h (Option.some.inj hc)⟩

theorem Anew.cases {m : Mode} {chars : List Char} (h : Anew m chars) :
    m = .ground ∨ ((m = .osc ∨ m = .string) ∧ ∃ c rest, chars = esc :: c :: rest ∧ c ≠ '\\') :=
  h.imp id (fun hstring => ⟨hstring.1, hstring.2.eq_cons⟩)

theorem shown_anew {m : Mode} {chars : List Char} (h : Anew m chars) :
    shown display m chars = shown display .ground chars := by
  obtain rfl | ⟨rfl | rfl, c, rest, rfl, hc⟩ := h.cases
  · rfl
  · show shown display (if c = '\\' then .ground else begin c) rest = shown display (begin c) rest
    rw [if_neg hc]
  · show shown display (if c = '\\' then .ground else begin c) rest = shown display (begin c) rest
    rw [if_neg hc]

end Orkworksd.Lib.Ansi
