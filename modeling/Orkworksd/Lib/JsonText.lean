import Mathlib.Algebra.Order.Ring.Int
import Mathlib.Data.List.Infix
import Mathlib.Data.Option.Basic

/- The text of a flat JSON object, and the part of the JSON grammar that tells where
   an object ends.

   `object members` is the compact text serde_json prints for an object whose values
   are strings, numbers or literals. `Lex` reads bytes the way every JSON reader has
   to: it follows strings and their escapes, counts braces outside them, and knows
   which bytes may come after a closing quote. `Accepts` is necessary for a text to be
   a JSON object; it is far from sufficient.

   `object_flat` says that the text of an object is accepted and stays at one level of
   braces. `Flat.pieces` is what the lexer is for: texts that were cut short and run
   together are never accepted as one object, wherever they were cut. -/
namespace Orkworksd.Lib.JsonText
open List

/-! ## Printing -/

/-- A member's value: a string, or a number or literal written as it is. -/
inductive Atom where
  | text (chars : List Char)
  | token (chars : List Char)
  deriving DecidableEq

def hexDigit (n : Nat) : Char :=
  if n < 10 then Char.ofNat (0x30 + n) else Char.ofNat (0x57 + n)

/-- One character inside a string. -/
def escape (c : Char) : List Char :=
  if c = '"' then ['\\', '"']
  else if c = '\\' then ['\\', '\\']
  else if c.toNat = 0x08 then ['\\', 'b']
  else if c.toNat = 0x09 then ['\\', 't']
  else if c.toNat = 0x0a then ['\\', 'n']
  else if c.toNat = 0x0c then ['\\', 'f']
  else if c.toNat = 0x0d then ['\\', 'r']
  else if c.toNat < 0x20 then
    ['\\', 'u', '0', '0', hexDigit (c.toNat / 16), hexDigit (c.toNat % 16)]
  else [c]

def quote (chars : List Char) : List Char := '"' :: chars.flatMap escape ++ ['"']

def Atom.print : Atom → List Char
  | .text chars => quote chars
  | .token chars => chars

def member (m : List Char × Atom) : List Char := quote m.1 ++ ':' :: m.2.print

/-- The members, each but the first after a comma. -/
def members : List (List Char × Atom) → List Char
  | [] => []
  | [m] => member m
  | m :: n :: ms => member m ++ ',' :: members (n :: ms)

/-- The text of an object. The braces are written by their code. -/
def object (ms : List (List Char × Atom)) : List Char :=
  Char.ofNat 0x7b :: members ms ++ [Char.ofNat 0x7d]

def encode (chars : List Char) : List UInt8 := chars.flatMap String.utf8EncodeChar

/-! ## Lexing -/

/-- Where a reader of an object stands. The number counts the objects around the
one it is in. -/
inductive Lex where
  | start
  | outside (depth : Nat)
  | inside (depth : Nat)
  | escaped (depth : Nat)
  | closed (depth : Nat)
  | done
  deriving DecidableEq

/-- Space, tab, line feed and carriage return. -/
def isSpace (b : UInt8) : Bool := b == 0x20 || b == 0x09 || b == 0x0a || b == 0x0d

/-- The closing brace. -/
def leave : Nat → Lex
  | 0 => .done
  | depth + 1 => .outside depth

def step : Lex → UInt8 → Option Lex
  | .start, b => if b = 0x7b then some (.outside 0) else if isSpace b then some .start else none
  | .outside depth, b =>
    if b = 0x22 then some (.inside depth)
    else if b = 0x7b then some (.outside (depth + 1))
    else if b = 0x7d then some (leave depth)
    else some (.outside depth)
  | .inside depth, b =>
    if b = 0x22 then some (.closed depth)
    else if b = 0x5c then some (.escaped depth)
    else some (.inside depth)
  | .escaped depth, b =>
    if b ∈ [0x22, 0x5c, 0x2f, 0x62, 0x66, 0x6e, 0x72, 0x74, 0x75] then some (.inside depth) else none
  | .closed depth, b =>
    if b = 0x7d then some (leave depth)
    else if b = 0x2c ∨ b = 0x3a ∨ b = 0x5d ∨ isSpace b then some (.outside depth)
    else none
  | .done, b => if isSpace b then some .done else none

def scan (s : Lex) (bytes : List UInt8) : Option Lex := bytes.foldlM step s

/-- Every text that is a JSON object is accepted. -/
def Accepts (bytes : List UInt8) : Prop := scan .start bytes = some .done

theorem scan_cons (s : Lex) (b : UInt8) (bytes : List UInt8) :
    scan s (b :: bytes) = (step s b).bind (fun t => scan t bytes) := rfl

theorem scan_append (s : Lex) (x y : List UInt8) :
    scan s (x ++ y) = (scan s x).bind (fun t => scan t y) := by
  rw [scan, foldlM_append]
  rfl

/-! ## Texts cut short -/

/-- The reader is inside an object that is not closed yet. -/
def Lex.Open : Lex → Prop
  | .start | .done => False
  | _ => True

/-- An object at one level of braces whose first key starts with a byte that may not
follow a closing quote. -/
structure Flat (bytes : List UInt8) : Prop where
  accepts : Accepts bytes
  shape : ∃ b rest, bytes = 0x7b :: 0x22 :: b :: rest ∧ ∀ depth, step (.closed depth) b = none
  last : ∃ init, bytes = init ++ [0x7d]

/-- The state of a reader that meets the same bytes inside an object. -/
def Lex.under (depth : Nat) : Lex → Lex
  | .start => .outside depth
  | .outside k => .outside (k + depth + 1)
  | .inside k => .inside (k + depth + 1)
  | .escaped k => .escaped (k + depth + 1)
  | .closed k => .closed (k + depth + 1)
  | .done => .outside depth

variable (depth : Nat)

theorem under_open (s : Lex) : (s.under depth).Open := by
  cases s <;> trivial

theorem leave_under (k : Nat) : (leave k).under depth = leave (k + depth + 1) := by
  cases k with
  | zero => rw [Nat.zero_add]; rfl
  | succ k =>
    show Lex.outside (k + depth + 1) = leave (k + 1 + depth + 1)
    rw [Nat.add_right_comm k 1 depth]
    rfl

variable {b : UInt8}

theorem isSpace_cases (h : isSpace b = true) : b ≠ 0x22 ∧ b ≠ 0x7b ∧ b ≠ 0x7d := by
  simp only [isSpace, Bool.or_eq_true, beq_iff_eq, or_assoc] at h
  rcases h with rfl | rfl | rfl | rfl <;> decide

variable {t s : Lex}

theorem step_under (h : step s b = some t) : step (s.under depth) b = some (t.under depth) := by
  cases s with
  | start =>
    simp only [step] at h
    split at h
    · rename_i hb
      cases h
      subst hb
      simp [Lex.under, step]
    · rename_i hb
      split at h
      · rename_i hspace
        cases h
        obtain ⟨hq, ho, hc⟩ := isSpace_cases hspace
        simp [Lex.under, step, hq, ho, hc]
      · cases h
  | outside k =>
    show step (.outside (k + depth + 1)) b = _
    simp only [step] at h ⊢
    split at h
    · rename_i hb
      cases h
      rw [if_pos hb]
      rfl
    · rename_i hq
      rw [if_neg hq]
      split at h
      · rename_i hb
        cases h
        rw [if_pos hb, Nat.add_right_comm k depth 1]
        rfl
      · rename_i ho
        rw [if_neg ho]
        split at h
        · rename_i hb
          cases h
          rw [if_pos hb, leave_under]
        · rename_i hc
          cases h
          rw [if_neg hc]
          rfl
  | inside k =>
    show step (.inside (k + depth + 1)) b = _
    simp only [step] at h ⊢
    split at h
    · rename_i hb
      cases h
      rw [if_pos hb]
      rfl
    · rename_i hq
      rw [if_neg hq]
      split at h
      · rename_i hb
        cases h
        rw [if_pos hb]
        rfl
      · rename_i hb
        cases h
        rw [if_neg hb]
        rfl
  | escaped k =>
    show step (.escaped (k + depth + 1)) b = _
    simp only [step] at h ⊢
    split at h
    · rename_i hb
      cases h
      rw [if_pos hb]
      rfl
    · cases h
  | closed k =>
    show step (.closed (k + depth + 1)) b = _
    simp only [step] at h ⊢
    split at h
    · rename_i hb
      cases h
      rw [if_pos hb, leave_under]
    · rename_i hb
      rw [if_neg hb]
      split at h
      · rename_i hfollow
        cases h
        rw [if_pos hfollow]
        rfl
      · cases h
  | done =>
    simp only [step] at h
    split at h
    · rename_i hspace
      cases h
      obtain ⟨hq, ho, hc⟩ := isSpace_cases hspace
      simp [Lex.under, step, hq, ho, hc]
    · cases h

variable {bytes : List UInt8}

theorem scan_under (h : scan s bytes = some t) :
    scan (s.under depth) bytes = some (t.under depth) := by
  induction bytes generalizing s with
  | nil =>
    cases h
    rfl
  | cons b bytes ih =>
    rw [scan_cons] at h ⊢
    obtain ⟨u, hu, hrest⟩ := Option.bind_eq_some_iff.mp h
    rw [step_under depth hu]
    exact ih hrest

theorem step_ne_start (hs : s ≠ .start) (h : step s b = some t) : t ≠ .start := by
  have hleave : ∀ k, leave k ≠ .start := by
    intro k
    cases k <;> simp [leave]
  intro ht
  subst ht
  cases s with
  | start => exact hs rfl
  | outside k =>
    simp only [step] at h
    repeat' split at h
    all_goals simp [hleave] at h
  | inside k =>
    simp only [step] at h
    repeat' split at h
    all_goals cases h
  | escaped k =>
    simp only [step] at h
    split at h <;> cases h
  | closed k =>
    simp only [step] at h
    repeat' split at h
    all_goals simp [hleave] at h
  | done =>
    simp only [step] at h
    split at h <;> cases h

theorem scan_ne_start (hs : s ≠ .start) (h : scan s bytes = some t) : t ≠ .start := by
  induction bytes generalizing s with
  | nil =>
    cases h
    exact hs
  | cons b bytes ih =>
    rw [scan_cons] at h
    obtain ⟨u, hu, hrest⟩ := Option.bind_eq_some_iff.mp h
    exact ih (step_ne_start hs hu) hrest

theorem scan_done (h : scan .done bytes = some t) : t = .done := by
  induction bytes with
  | nil =>
    cases h
    rfl
  | cons b bytes ih =>
    rw [scan_cons, step] at h
    split at h
    · exact ih h
    · cases h

theorem Accepts.take {p l : List UInt8} (h : Accepts l) (hp : p <+: l) :
    ∃ s, scan .start p = some s ∧ ∃ rest, l = p ++ rest ∧ scan s rest = some .done := by
  obtain ⟨rest, rfl⟩ := hp
  rw [Accepts, scan_append] at h
  obtain ⟨s, hs, hrest⟩ := Option.bind_eq_some_iff.mp h
  exact ⟨s, hs, rest, rfl, hrest⟩

namespace Flat

variable {l p : List UInt8}

theorem head (h : Flat l) (hp : p <+: l) (hne : p ≠ []) : ∃ rest, p = 0x7b :: rest := by
  obtain ⟨b, rest, rfl, -⟩ := h.shape
  cases p with
  | nil => exact absurd rfl hne
  | cons x xs =>
    obtain ⟨rfl, -⟩ := cons_prefix_cons.mp hp
    exact ⟨xs, rfl⟩

variable {t : Lex}

theorem piece_open (h : Flat l) (hp : p <+: l) (hne : p ≠ []) (hs : s.Open)
    (hscan : scan s p = some t) : t.Open := by
  obtain ⟨rest, rfl⟩ := h.head hp hne
  cases s with
  | start => exact absurd hs id
  | done => exact absurd hs id
  | outside depth =>
    obtain ⟨u, hu, -⟩ := h.accepts.take hp
    have hunder : scan (.outside depth) (0x7b :: rest) = some (u.under depth) :=
      scan_under depth hu
    rw [hunder] at hscan
    cases hscan
    exact under_open depth u
  | inside depth =>
    -- The quote after the brace ends the string, and no key may start there.
    obtain ⟨b, tail, rfl, hb⟩ := h.shape
    have hp' := (cons_prefix_cons.mp hp).2
    have hbrace : step (.inside depth) 0x7b = some (.inside depth) := rfl
    rw [scan_cons, hbrace] at hscan
    cases rest with
    | nil =>
      cases hscan
      trivial
    | cons q rest =>
      obtain ⟨rfl, hp''⟩ := cons_prefix_cons.mp hp'
      have hquote : step (.inside depth) 0x22 = some (.closed depth) := rfl
      rw [Option.bind_some, scan_cons, hquote] at hscan
      cases rest with
      | nil =>
        cases hscan
        trivial
      | cons c rest =>
        obtain ⟨rfl, -⟩ := cons_prefix_cons.mp hp''
        rw [Option.bind_some, scan_cons, hb depth] at hscan
        cases hscan
  | escaped depth => cases hscan
  | closed depth => cases hscan

theorem pieces_open {pieces : List (List UInt8)}
    (hpieces : ∀ q ∈ pieces, q ≠ [] ∧ ∃ l, Flat l ∧ q <+: l) (hs : s.Open)
    (hscan : scan s pieces.flatten = some t) : t.Open := by
  induction pieces generalizing s with
  | nil =>
    cases hscan
    exact hs
  | cons q qs ih =>
    rw [flatten_cons, scan_append] at hscan
    obtain ⟨u, hu, hrest⟩ := Option.bind_eq_some_iff.mp hscan
    obtain ⟨hne, l, hl, hq⟩ := hpieces q mem_cons_self
    exact ih (fun x hx => hpieces x (mem_cons_of_mem q hx)) (hl.piece_open hq hne hs hu) hrest

theorem rest_nil (h : Flat l) {init rest : List UInt8} (heq : l = init ++ rest)
    (hscan : scan .done rest = some .done) : rest = [] := by
  by_contra hne
  obtain ⟨body, hbody⟩ := h.last
  obtain ⟨front, b, rfl⟩ := (eq_nil_or_concat rest).resolve_left hne
  rw [concat_eq_append] at heq hscan
  rw [hbody, ← append_assoc] at heq
  obtain ⟨-, hb⟩ := append_inj' heq rfl
  cases hb
  rw [scan_append] at hscan
  obtain ⟨u, hu, hlast⟩ := Option.bind_eq_some_iff.mp hscan
  rw [scan_done hu] at hlast
  cases hlast

theorem whole_or_open (h : Flat l) (hp : p <+: l) (hne : p ≠ []) (hscan : scan .start p = some t) :
    (t = .done ∧ p = l) ∨ t.Open := by
  obtain ⟨s, hs, rest, hl, hrest⟩ := h.accepts.take hp
  rw [hs] at hscan
  cases hscan
  cases t with
  | done =>
    have hnil := h.rest_nil hl hrest
    rw [hl, hnil, append_nil]
    exact .inl ⟨rfl, rfl⟩
  | start =>
    -- The first byte is the brace, and no byte leads back to the start.
    obtain ⟨tail, rfl⟩ := h.head hp hne
    have htail : scan (.outside 0) tail = some .start := hs
    exact absurd rfl (scan_ne_start (by simp) htail)
  | outside k => exact .inr trivial
  | inside k => exact .inr trivial
  | escaped k => exact .inr trivial
  | closed k => exact .inr trivial

/-- Pieces of objects run together read as one object only where there is a single
piece and it is a whole object. -/
theorem pieces {pieces : List (List UInt8)}
    (hpieces : ∀ q ∈ pieces, q ≠ [] ∧ ∃ l, Flat l ∧ q <+: l) (h : Accepts pieces.flatten) :
    ∃ l, pieces = [l] ∧ Flat l := by
  cases pieces with
  | nil => cases h
  | cons q qs =>
    rw [flatten_cons, Accepts, scan_append] at h
    obtain ⟨t, ht, hrest⟩ := Option.bind_eq_some_iff.mp h
    obtain ⟨hne, l, hl, hq⟩ := hpieces q mem_cons_self
    have hqs : ∀ x ∈ qs, x ≠ [] ∧ ∃ l, Flat l ∧ x <+: l :=
      fun x hx => hpieces x (mem_cons_of_mem q hx)
    rcases hl.whole_or_open hq hne ht with ⟨rfl, rfl⟩ | hopen
    · cases qs with
      | nil => exact ⟨q, rfl, hl⟩
      | cons r rs =>
        obtain ⟨hrne, m, hm, hr⟩ := hqs r mem_cons_self
        obtain ⟨tail, rfl⟩ := hm.head hr hrne
        cases hrest
    · exact absurd (pieces_open hqs hopen hrest) id

end Flat

/-! ## What is printed -/

theorem encode_nil : encode [] = [] := rfl

theorem encode_cons (c : Char) (cs : List Char) :
    encode (c :: cs) = String.utf8EncodeChar c ++ encode cs := flatMap_cons

theorem encode_append (x y : List Char) : encode (x ++ y) = encode x ++ encode y :=
  flatMap_append

variable {c : Char}

/-- A character of the ASCII range is its own byte, and every byte of another one
lies beyond that range. -/
theorem mem_utf8EncodeChar (h : b ∈ String.utf8EncodeChar c) :
    (c.toNat < 0x80 ∧ b = UInt8.ofNat c.toNat) ∨ (0x80 ≤ c.toNat ∧ 0x80 ≤ b.toNat) := by
  have hbyte : ∀ k n : Nat, 0x80 ≤ k % 256 → UInt8.ofNat k = b → 0x80 ≤ b.toNat := by
    intro k n hk hb
    rw [← hb, UInt8.toNat_ofNat']
    exact hk
  simp only [String.utf8EncodeChar] at h
  have hval : c.val.toNat = c.toNat := rfl
  rw [hval] at h
  split at h
  · rw [mem_singleton] at h
    exact .inl ⟨by omega, h⟩
  · refine .inr ⟨by omega, ?_⟩
    split at h
    · simp only [mem_cons, not_mem_nil, or_false] at h
      rcases h with h | h <;> exact hbyte _ 0 (by omega) h.symm
    · split at h
      · simp only [mem_cons, not_mem_nil, or_false] at h
        rcases h with h | h | h <;> exact hbyte _ 0 (by omega) h.symm
      · simp only [mem_cons, not_mem_nil, or_false] at h
        rcases h with h | h | h | h <;> exact hbyte _ 0 (by omega) h.symm

theorem encode_singleton (h : c.toNat < 0x80) : encode [c] = [UInt8.ofNat c.toNat] := by
  have hval : c.val.toNat ≤ 0x7f := Nat.lt_succ_iff.mp h
  rw [encode, flatMap_singleton, String.utf8EncodeChar]
  exact if_pos hval

variable {cs : List Char}

theorem mem_of_mem_encode (h : b ∈ encode cs) (hb : b.toNat < 0x80) :
    ∃ c ∈ cs, c.toNat = b.toNat := by
  obtain ⟨c, hc, hbc⟩ := mem_flatMap.mp h
  refine ⟨c, hc, ?_⟩
  rcases mem_utf8EncodeChar hbc with ⟨hlt, rfl⟩ | ⟨-, hge⟩
  · rw [UInt8.toNat_ofNat']
    omega
  · omega

theorem notMem_encode {d : Char} (hd : d.toNat < 0x80) (h : d ∉ cs) :
    UInt8.ofNat d.toNat ∉ encode cs := by
  have hnat : (UInt8.ofNat d.toNat).toNat = d.toNat := by
    rw [UInt8.toNat_ofNat']
    omega
  intro hmem
  obtain ⟨c, hc, heq⟩ := mem_of_mem_encode hmem (by omega)
  rw [hnat] at heq
  exact h (Char.toNat_inj.mp heq ▸ hc)

theorem scan_stay (h : ∀ b ∈ bytes, step s b = some s) : scan s bytes = some s := by
  induction bytes with
  | nil => rfl
  | cons b bytes ih =>
    rw [scan_cons, h b mem_cons_self]
    exact ih (fun x hx => h x (mem_cons_of_mem b hx))

theorem hexDigit_plain : ∀ n < 16, (hexDigit n).toNat < 0x80 ∧ hexDigit n ≠ '"' ∧ hexDigit n ≠ '\\'
    ∧ 0x20 ≤ (hexDigit n).toNat := by
  decide

theorem step_inside {depth : Nat} (hq : b ≠ 0x22) (hs : b ≠ 0x5c) :
    step (.inside depth) b = some (.inside depth) := by
  rw [step, if_neg hq, if_neg hs]

theorem scan_inside_char {depth : Nat} (hq : c ≠ '"') (hs : c ≠ '\\') :
    scan (.inside depth) (encode [c]) = some (.inside depth) := by
  refine scan_stay (fun b hb => step_inside ?_ ?_)
  · intro h
    rw [h] at hb
    exact notMem_encode (d := '"') (by decide) (by simpa using Ne.symm hq) hb
  · intro h
    rw [h] at hb
    exact notMem_encode (d := '\\') (by decide) (by simpa using Ne.symm hs) hb

theorem scan_escape (c : Char) :
    scan (.inside depth) (encode (escape c)) = some (.inside depth) := by
  have htwo : ∀ x : Char, x ∈ ['"', '\\', 'b', 't', 'n', 'f', 'r'] →
      scan (.inside depth) (encode ['\\', x]) = some (.inside depth) := by
    intro x hx
    simp only [mem_cons, not_mem_nil, or_false] at hx
    rcases hx with rfl | rfl | rfl | rfl | rfl | rfl | rfl <;> rfl
  rw [escape]
  repeat' split
  all_goals try exact htwo _ (by decide)
  · rename_i hctl
    have hhigh := hexDigit_plain (c.toNat / 16) (by omega)
    have hlow := hexDigit_plain (c.toNat % 16) (by omega)
    have hopen : scan (.inside depth) (encode ['\\', 'u', '0', '0']) = some (.inside depth) := rfl
    show scan (.inside depth) (encode (['\\', 'u', '0', '0'] ++ [hexDigit (c.toNat / 16)]
      ++ [hexDigit (c.toNat % 16)])) = some (.inside depth)
    rw [encode_append, encode_append, scan_append, scan_append, hopen, Option.bind_some,
      scan_inside_char hhigh.2.1 hhigh.2.2.1, Option.bind_some,
      scan_inside_char hlow.2.1 hlow.2.2.1]
  · rename_i hq hs _ _ _ _ _ _
    exact scan_inside_char hq hs

variable (chars : List Char)

theorem scan_quote : scan (.outside depth) (encode (quote chars)) = some (.closed depth) := by
  have hbody : scan (.inside depth) (encode (chars.flatMap escape)) = some (.inside depth) := by
    induction chars with
    | nil => rfl
    | cons c chars ih =>
      rw [flatMap_cons, encode_append, scan_append, scan_escape, Option.bind_some, ih]
  show scan (.outside depth) (encode (['"'] ++ chars.flatMap escape ++ ['"'])) = _
  rw [encode_append, encode_append, scan_append, scan_append]
  have hopen : scan (.outside depth) (encode ['"']) = some (.inside depth) := rfl
  rw [hopen, Option.bind_some, hbody]
  rfl

/-- A token holds neither a quote nor a brace nor a line feed. -/
def TokenChar (c : Char) : Prop := c ≠ '"' ∧ c.toNat ≠ 0x7b ∧ c.toNat ≠ 0x7d ∧ c ≠ '\n' ∧ c ≠ ','

instance tokenCharDecidable (c : Char) : Decidable (TokenChar c) :=
  inferInstanceAs (Decidable (_ ∧ _))

/-- The value can stand in an object. -/
def Atom.Valid : Atom → Prop
  | .text _ => True
  | .token chars => ∀ c ∈ chars, TokenChar c

theorem scan_token {depth : Nat} {chars : List Char} (h : ∀ c ∈ chars, TokenChar c) :
    scan (.outside depth) (encode chars) = some (.outside depth) := by
  refine scan_stay (fun b hb => ?_)
  have hnot : ∀ d : Char, d.toNat < 0x80 → ¬ TokenChar d → b ≠ UInt8.ofNat d.toNat := by
    intro d hd hbad heq
    rw [heq] at hb
    exact notMem_encode hd (fun hmem => hbad (h d hmem)) hb
  have hq : b ≠ 0x22 := hnot '"' (by decide) (by decide)
  have ho : b ≠ 0x7b := hnot (Char.ofNat 0x7b) (by decide) (by decide)
  have hc : b ≠ 0x7d := hnot (Char.ofNat 0x7d) (by decide) (by decide)
  rw [step, if_neg hq, if_neg ho, if_neg hc]

theorem scan_member {m : List Char × Atom} (h : m.2.Valid) :
    ∃ s, scan (.outside 0) (encode (member m)) = some s ∧ (s = .outside 0 ∨ s = .closed 0) := by
  show ∃ s, scan (.outside 0) (encode (quote m.1 ++ ([':'] ++ m.2.print))) = some s ∧ _
  rw [encode_append, encode_append, scan_append, scan_quote, Option.bind_some, scan_append]
  have hcolon : scan (.closed 0) (encode [':']) = some (.outside 0) := rfl
  rw [hcolon, Option.bind_some]
  cases hm : m.2 with
  | text chars => exact ⟨_, scan_quote 0 chars, .inr rfl⟩
  | token chars =>
    rw [hm] at h
    exact ⟨_, scan_token h, .inl rfl⟩

variable {ms : List (List Char × Atom)}

theorem scan_members (h : ∀ m ∈ ms, m.2.Valid) :
    scan (.outside 0) (encode (members ms ++ [Char.ofNat 0x7d])) = some .done := by
  induction ms with
  | nil => rfl
  | cons m ms ih =>
    obtain ⟨s, hs, hstate⟩ := scan_member (h m mem_cons_self)
    have hrest := ih (fun x hx => h x (mem_cons_of_mem m hx))
    cases ms with
    | nil =>
      rw [members, encode_append, scan_append, hs]
      rcases hstate with rfl | rfl <;> rfl
    | cons n ms =>
      show scan (.outside 0) (encode ((member m ++ ([','] ++ members (n :: ms)))
        ++ [Char.ofNat 0x7d])) = _
      rw [append_assoc, append_assoc, encode_append, scan_append, hs, Option.bind_some,
        encode_append, scan_append]
      have hcomma : scan s (encode [',']) = some (.outside 0) := by
        rcases hstate with rfl | rfl <;> rfl
      rw [hcomma, Option.bind_some, hrest]

/-- The characters a string is printed with as they are, one byte each. -/
def Plain (c : Char) : Prop := 0x20 ≤ c.toNat ∧ c.toNat < 0x80 ∧ c ≠ '"' ∧ c ≠ '\\'

instance instDecidablePlain (c : Char) : Decidable (Plain c) := by unfold Plain; infer_instance

theorem escape_plain (h : Plain c) : escape c = [c] := by
  obtain ⟨hlow, -, hq, hs⟩ := h
  rw [escape, if_neg hq, if_neg hs]
  repeat rw [if_neg (by omega)]

theorem isAlpha_plain (h : c.isAlpha = true) : Plain c ∧
    ∀ depth, step (.closed depth) (UInt8.ofNat c.toNat) = none := by
  have hrange : (65 ≤ c.toNat ∧ c.toNat ≤ 90) ∨ (97 ≤ c.toNat ∧ c.toNat ≤ 122) := by
    have hletter : (decide (c.val ≥ 65 ∧ c.val ≤ 90)
        || decide (c.val ≥ 97) && decide (c.val ≤ 122)) = true := h
    simp only [Bool.or_eq_true, Bool.and_eq_true, decide_eq_true_eq] at hletter
    exact hletter
  have hchar : ∀ d : Char, c.toNat ≠ d.toNat → c ≠ d := by
    intro d hne heq
    exact hne (congrArg Char.toNat heq)
  refine ⟨⟨by omega, by omega, hchar _ ?_, hchar _ ?_⟩, ?_⟩
  · show c.toNat ≠ 34
    omega
  · show c.toNat ≠ 92
    omega
  · intro depth
    have hnat : (UInt8.ofNat c.toNat).toNat = c.toNat := by
      rw [UInt8.toNat_ofNat']
      omega
    have hne : ∀ n : UInt8, n.toNat < 65 ∨ n.toNat = 93 ∨ 122 < n.toNat →
        UInt8.ofNat c.toNat ≠ n := by
      intro n hn heq
      rw [← heq, hnat] at hn
      omega
    rw [step, if_neg (hne _ (by decide)), if_neg]
    simp only [isSpace, Bool.or_eq_true, beq_iff_eq, not_or]
    exact ⟨hne _ (by decide), hne _ (by decide), hne _ (by decide), ⟨⟨hne _ (by decide),
      hne _ (by decide)⟩, hne _ (by decide)⟩, hne _ (by decide)⟩

theorem object_flat {key : List Char} {value : Atom} (hvalid : value.Valid)
    (hms : ∀ m ∈ ms, m.2.Valid) (hc : c.isAlpha = true) :
    Flat (encode (object ((c :: key, value) :: ms))) := by
  obtain ⟨hplain, hstep⟩ := isAlpha_plain hc
  have hmem : ∀ m ∈ (c :: key, value) :: ms, m.2.Valid := by
    intro m hm
    rcases mem_cons.mp hm with rfl | hm
    · exact hvalid
    · exact hms m hm
  refine ⟨?_, ?_, ?_⟩
  · show scan .start (encode ([Char.ofNat 0x7b] ++ (members ((c :: key, value) :: ms)
      ++ [Char.ofNat 0x7d]))) = some .done
    have hopen : scan .start (encode [Char.ofNat 0x7b]) = some (.outside 0) := rfl
    rw [encode_append, scan_append, hopen, Option.bind_some, scan_members hmem]
  · have hmembers : ∃ tail, members ((c :: key, value) :: ms) = ['"'] ++ ([c] ++ tail) := by
      have hquote : quote (c :: key) = ['"'] ++ ([c] ++ (key.flatMap escape ++ ['"'])) := by
        rw [quote, flatMap_cons, escape_plain hplain]
        rfl
      cases ms with
      | nil =>
        rw [members, member, hquote]
        exact ⟨_, by rw [append_assoc, append_assoc]⟩
      | cons m ms =>
        rw [members, member, hquote]
        exact ⟨_, by rw [append_assoc, append_assoc, append_assoc,
          append_assoc]⟩
    obtain ⟨tail, htail⟩ := hmembers
    refine ⟨UInt8.ofNat c.toNat, encode (tail ++ [Char.ofNat 0x7d]), ?_, hstep⟩
    show encode ([Char.ofNat 0x7b] ++ (members ((c :: key, value) :: ms) ++ [Char.ofNat 0x7d])) = _
    rw [htail, append_assoc, append_assoc, encode_append, encode_append, encode_append,
      encode_singleton hplain.2.1]
    rfl
  · refine ⟨encode (Char.ofNat 0x7b :: members ((c :: key, value) :: ms)), ?_⟩
    show encode ((Char.ofNat 0x7b :: members ((c :: key, value) :: ms)) ++ [Char.ofNat 0x7d]) = _
    rw [encode_append]
    rfl

/-! ## No line feed -/

theorem newline_notMem_quote : '\n' ∉ quote chars := by
  have hescape : ∀ c : Char, '\n' ∉ escape c := by
    intro c
    rw [escape]
    repeat' split
    all_goals try decide
    · rename_i hctl
      have hhigh := (hexDigit_plain (c.toNat / 16) (by omega)).2.2.2
      have hlow := (hexDigit_plain (c.toNat % 16) (by omega)).2.2.2
      simp only [mem_cons, not_mem_nil, or_false, not_or]
      refine ⟨by decide, by decide, by decide, by decide, ?_, ?_⟩
      · intro h
        rw [← h] at hhigh
        revert hhigh
        decide
      · intro h
        rw [← h] at hlow
        revert hlow
        decide
    · rename_i hn _ _ _
      rw [mem_singleton]
      intro h
      rw [← h] at hn
      exact hn rfl
  rw [quote, mem_append, not_or, mem_cons, not_or, mem_flatMap]
  refine ⟨⟨by decide, ?_⟩, by decide⟩
  intro h
  obtain ⟨c, -, hc⟩ := h
  exact hescape c hc

theorem newline_notMem_members (h : ∀ m ∈ ms, m.2.Valid) : '\n' ∉ members ms := by
  have hmember : ∀ m ∈ ms, '\n' ∉ member m := by
    intro m hm
    have hv := h m hm
    rw [member, mem_append, not_or, mem_cons, not_or]
    refine ⟨newline_notMem_quote m.1, by decide, ?_⟩
    cases hval : m.2 with
    | text chars => exact newline_notMem_quote chars
    | token chars =>
      rw [hval] at hv
      intro hmem
      exact (hv '\n' hmem).2.2.2.1 rfl
  induction ms with
  | nil => simp [members]
  | cons m ms ih =>
    have hrest := ih (fun x hx => h x (mem_cons_of_mem m hx))
      (fun x hx => hmember x (mem_cons_of_mem m hx))
    have hm := hmember m mem_cons_self
    cases ms with
    | nil => exact hm
    | cons n ms =>
      rw [members, mem_append, not_or, mem_cons, not_or]
      exact ⟨hm, by decide, hrest⟩

theorem newline_notMem_object (h : ∀ m ∈ ms, m.2.Valid) : 0x0a ∉ encode (object ms) := by
  refine notMem_encode (d := '\n') (by decide) ?_
  rw [object, mem_append, not_or, mem_cons, not_or]
  exact ⟨⟨by decide, newline_notMem_members h⟩, by decide⟩

/-! ## Lengths -/

theorem length_escape_le (c : Char) : (encode (escape c)).length ≤ 6 := by
  have hone : ∀ d : Char, (encode [d]).length ≤ 4 := by
    intro d
    rw [encode, flatMap_singleton, String.length_utf8EncodeChar]
    exact Char.utf8Size_le_four d
  rw [escape]
  repeat' split
  all_goals try decide
  · rename_i hctl
    have hhigh := (hexDigit_plain (c.toNat / 16) (by omega)).1
    have hlow := (hexDigit_plain (c.toNat % 16) (by omega)).1
    show (encode (['\\', 'u', '0', '0'] ++ [hexDigit (c.toNat / 16)]
      ++ [hexDigit (c.toNat % 16)])).length ≤ 6
    rw [encode_append, encode_append, encode_singleton hhigh, encode_singleton hlow]
    exact Nat.le_refl 6
  · have := hone c
    omega

theorem length_quote_le : (encode (quote chars)).length ≤ 6 * chars.length + 2 := by
  have hbody : (encode (chars.flatMap escape)).length ≤ 6 * chars.length := by
    induction chars with
    | nil => exact Nat.le_refl 0
    | cons c chars ih =>
      rw [flatMap_cons, encode_append, length_append, length_cons]
      have := length_escape_le c
      omega
  show (encode (['"'] ++ chars.flatMap escape ++ ['"'])).length ≤ _
  rw [encode_append, encode_append, length_append, length_append]
  have hquote : (encode ['"']).length = 1 := rfl
  omega

theorem length_quote_plain {chars : List Char} (h : ∀ c ∈ chars, Plain c) :
    (encode (quote chars)).length = chars.length + 2 := by
  have hbody : (encode (chars.flatMap escape)).length = chars.length := by
    induction chars with
    | nil => rfl
    | cons c chars ih =>
      have hc := h c mem_cons_self
      rw [flatMap_cons, escape_plain hc, encode_append, encode_singleton hc.2.1,
        length_append, ih (fun x hx => h x (mem_cons_of_mem c hx)), length_cons]
      exact Nat.add_comm 1 _
  show (encode (['"'] ++ chars.flatMap escape ++ ['"'])).length = _
  rw [encode_append, encode_append, length_append, length_append, hbody]
  have hquote : (encode ['"']).length = 1 := rfl
  omega

/-! ## Different objects have different texts -/

theorem encode_injective : Function.Injective encode := by
  intro x y h
  have hbytes : x.utf8Encode = y.utf8Encode := by
    rw [List.utf8Encode, List.utf8Encode]
    exact congrArg List.toByteArray h
  rw [← String.toByteArray_ofList, ← String.toByteArray_ofList] at hbytes
  exact String.ofList_injective (String.toByteArray_inj.mp hbytes)

theorem hexDigit_inj : ∀ m < 16, ∀ n < 16, hexDigit m = hexDigit n → m = n := by decide

/-- The letter of a two-character escape tells the character. -/
def short : List (Char × Char) :=
  [('"', '"'), ('\\', '\\'), (Char.ofNat 8, 'b'), (Char.ofNat 9, 't'), (Char.ofNat 10, 'n'),
    (Char.ofNat 12, 'f'), (Char.ofNat 13, 'r')]

theorem escape_cases (c : Char) :
    (∃ x, escape c = ['\\', x] ∧ (c, x) ∈ short)
      ∨ (c.toNat < 0x20 ∧ escape c =
          ['\\', 'u', '0', '0', hexDigit (c.toNat / 16), hexDigit (c.toNat % 16)])
      ∨ (escape c = [c] ∧ c ≠ '"' ∧ c ≠ '\\') := by
  have hchar : ∀ n, c.toNat = n → c = Char.ofNat n := by
    intro n h
    rw [← h, Char.ofNat_toNat]
  rw [escape]
  split
  · rename_i h
    exact .inl ⟨'"', rfl, by rw [h]; decide⟩
  split
  · rename_i h
    exact .inl ⟨'\\', rfl, by rw [h]; decide⟩
  split
  · rename_i h
    exact .inl ⟨'b', rfl, by rw [hchar _ h]; decide⟩
  split
  · rename_i h
    exact .inl ⟨'t', rfl, by rw [hchar _ h]; decide⟩
  split
  · rename_i h
    exact .inl ⟨'n', rfl, by rw [hchar _ h]; decide⟩
  split
  · rename_i h
    exact .inl ⟨'f', rfl, by rw [hchar _ h]; decide⟩
  split
  · rename_i h
    exact .inl ⟨'r', rfl, by rw [hchar _ h]; decide⟩
  split
  · rename_i h
    exact .inr (.inl ⟨h, rfl⟩)
  · rename_i hq hs _ _ _ _ _ _
    exact .inr (.inr ⟨rfl, hq, hs⟩)

theorem short_inj : ∀ p ∈ short, ∀ q ∈ short, p.2 = q.2 → p.1 = q.1 := by decide

theorem short_ne_u : ∀ p ∈ short, p.2 ≠ 'u' := by decide

variable {y x : List Char}

theorem escape_append_inj {a b : Char} (h : escape a ++ x = escape b ++ y) : a = b ∧ x = y := by
  rcases escape_cases a with ⟨u, ha, hu⟩ | ⟨hactl, ha⟩ | ⟨ha, -, has⟩ <;>
    rcases escape_cases b with ⟨v, hb, hv⟩ | ⟨hbctl, hb⟩ | ⟨hb, -, hbs⟩ <;>
    rw [ha, hb] at h <;> simp only [cons_append, nil_append, List.cons.injEq] at h
  · exact ⟨short_inj _ hu _ hv h.2.1, h.2.2⟩
  · exact absurd h.2.1 (short_ne_u _ hu)
  · exact absurd h.1.symm hbs
  · exact absurd h.2.1.symm (short_ne_u _ hv)
  · obtain ⟨-, -, -, -, hhigh, hlow, hrest⟩ := h
    have hdiv := hexDigit_inj _ (by omega) _ (by omega) hhigh
    have hmod := hexDigit_inj _ (by omega) _ (by omega) hlow
    exact ⟨Char.toNat_inj.mp (by omega), hrest⟩
  · exact absurd h.1.symm hbs
  · exact absurd h.1 has
  · exact absurd h.1 has
  · exact h

theorem escape_ne_quote (h : escape c ++ x = '"' :: y) : False := by
  rcases escape_cases c with ⟨u, hc, -⟩ | ⟨-, hc⟩ | ⟨hc, hq, -⟩ <;>
    rw [hc] at h <;> simp only [cons_append, List.cons.injEq] at h
  · exact absurd h.1 (by decide)
  · exact absurd h.1 (by decide)
  · exact absurd h.1 hq

variable {ds : List Char}

theorem quote_append_inj (h : quote cs ++ x = quote ds ++ y) : cs = ds ∧ x = y := by
  simp only [quote, cons_append, append_assoc, nil_append, List.cons.injEq, true_and] at h
  induction cs generalizing ds with
  | nil =>
    cases ds with
    | nil => exact ⟨rfl, (List.cons.inj h).2⟩
    | cons d ds =>
      rw [flatMap_nil, flatMap_cons, append_assoc] at h
      exact absurd h.symm escape_ne_quote
  | cons c cs ih =>
    cases ds with
    | nil =>
      rw [flatMap_nil, flatMap_cons, append_assoc] at h
      exact absurd h escape_ne_quote
    | cons d ds =>
      rw [flatMap_cons, flatMap_cons, append_assoc, append_assoc] at h
      obtain ⟨rfl, hrest⟩ := escape_append_inj h
      obtain ⟨rfl, hxy⟩ := ih hrest
      exact ⟨rfl, hxy⟩

/-- What follows a value: a comma or the closing brace. -/
def Follows (rest : List Char) : Prop := ∃ c tail, rest = c :: tail ∧ (c = ',' ∨ c.toNat = 0x7d)

/-- Texts of characters of one kind, before what does not start with one. -/
theorem span_append_inj {P : Char → Prop} (hc : ∀ c ∈ cs, P c) (hd : ∀ d ∈ ds, P d)
    (hx : ∀ c tail, x = c :: tail → ¬ P c) (hy : ∀ c tail, y = c :: tail → ¬ P c)
    (h : cs ++ x = ds ++ y) : cs = ds ∧ x = y := by
  induction cs generalizing ds with
  | nil =>
    cases ds with
    | nil => exact ⟨rfl, h⟩
    | cons d ds => exact absurd (hd d mem_cons_self) (hx d _ h)
  | cons c cs ih =>
    cases ds with
    | nil => exact absurd (hc c mem_cons_self) (hy c _ h.symm)
    | cons d ds =>
      obtain ⟨rfl, hrest⟩ := List.cons.inj h
      obtain ⟨rfl, hxy⟩ := ih (fun e he => hc e (mem_cons_of_mem _ he))
        (fun e he => hd e (mem_cons_of_mem _ he)) hrest
      exact ⟨rfl, hxy⟩

theorem token_append_inj (hc : ∀ c ∈ cs, TokenChar c) (hd : ∀ c ∈ ds, TokenChar c) (hx : Follows x)
    (hy : Follows y) (h : cs ++ x = ds ++ y) : cs = ds ∧ x = y := by
  have hclash : ∀ {rest : List Char}, Follows rest → ∀ c tail, rest = c :: tail → ¬ TokenChar c := by
    rintro _ ⟨e, _, rfl, he⟩ c tail heq htoken
    obtain ⟨rfl, -⟩ := List.cons.inj heq
    rcases he with rfl | he
    · exact htoken.2.2.2.2 rfl
    · exact htoken.2.2.1 he
  exact span_append_inj hc hd (hclash hx) (hclash hy) h

theorem token_ne_quote (hc : ∀ c ∈ cs, TokenChar c) (hx : Follows x) : cs ++ x ≠ quote ds ++ y := by
  intro h
  cases cs with
  | nil =>
    obtain ⟨e, _, rfl, he⟩ := hx
    obtain ⟨rfl, -⟩ := List.cons.inj h
    revert he
    decide
  | cons c cs =>
    obtain ⟨rfl, -⟩ := List.cons.inj h
    exact (hc '"' mem_cons_self).1 rfl

theorem print_append_inj {a b : Atom} (ha : a.Valid) (hb : b.Valid) (hx : Follows x)
    (hy : Follows y) (h : a.print ++ x = b.print ++ y) : a = b ∧ x = y := by
  cases a with
  | text cs =>
    cases b with
    | text ds =>
      obtain ⟨rfl, hxy⟩ := quote_append_inj h
      exact ⟨rfl, hxy⟩
    | token ds => exact absurd h.symm (token_ne_quote hb hy)
  | token cs =>
    cases b with
    | text ds => exact absurd h (token_ne_quote ha hx)
    | token ds =>
      obtain ⟨rfl, hxy⟩ := token_append_inj ha hb hx hy h
      exact ⟨rfl, hxy⟩

variable {ns : List (List Char × Atom)}

theorem members_inj (hm : ∀ m ∈ ms, m.2.Valid) (hn : ∀ n ∈ ns, n.2.Valid)
    (h : members ms ++ [Char.ofNat 0x7d] = members ns ++ [Char.ofNat 0x7d]) : ms = ns := by
  -- The members after the first, with the comma or the brace in front.
  have hsplit : ∀ (m : List Char × Atom) (ms : List (List Char × Atom)),
      ∃ tail, Follows tail ∧ members (m :: ms) ++ [Char.ofNat 0x7d] = member m ++ tail
        ∧ (ms = [] → tail = [Char.ofNat 0x7d])
        ∧ (ms ≠ [] → tail = ',' :: (members ms ++ [Char.ofNat 0x7d])) := by
    intro m ms
    cases ms with
    | nil => exact ⟨_, ⟨_, [], rfl, .inr rfl⟩, rfl, fun _ => rfl, fun h => absurd rfl h⟩
    | cons n ms =>
      refine ⟨',' :: (members (n :: ms) ++ [Char.ofNat 0x7d]), ⟨',', _, rfl, .inl rfl⟩, ?_,
        (fun hnil => absurd hnil (by simp)), fun _ => rfl⟩
      rw [members, append_assoc, cons_append]
  have hhead : ∀ (m : List Char × Atom) (tail : List Char),
      member m ++ tail ≠ [Char.ofNat 0x7d] := by
    intro m tail heq
    obtain ⟨hq, -⟩ := List.cons.inj heq
    revert hq
    decide
  induction ms generalizing ns with
  | nil =>
    cases ns with
    | nil => rfl
    | cons n ns =>
      obtain ⟨tail, -, heq, -⟩ := hsplit n ns
      rw [heq] at h
      exact absurd h.symm (hhead n tail)
  | cons m ms ih =>
    obtain ⟨tm, hfm, heqm, hnilm, hconsm⟩ := hsplit m ms
    cases ns with
    | nil =>
      rw [heqm] at h
      exact absurd h (hhead m tm)
    | cons n ns =>
      obtain ⟨tn, hfn, heqn, hniln, hconsn⟩ := hsplit n ns
      rw [heqm, heqn, member, member, append_assoc, append_assoc] at h
      obtain ⟨hkey, hrest⟩ := quote_append_inj h
      obtain ⟨hval, htail⟩ := print_append_inj (hm m mem_cons_self) (hn n mem_cons_self)
        hfm hfn (List.cons.inj hrest).2
      have hmn : m = n := Prod.ext hkey hval
      by_cases hms : ms = []
      · by_cases hns : ns = []
        · rw [hmn, hms, hns]
        · rw [hnilm hms, hconsn hns] at htail
          exact absurd (List.cons.inj htail).1 (by decide)
      · by_cases hns : ns = []
        · rw [hconsm hms, hniln hns] at htail
          exact absurd (List.cons.inj htail).1 (by decide)
        · rw [hconsm hms, hconsn hns] at htail
          rw [hmn, ih (fun x hx => hm x (mem_cons_of_mem m hx))
            (fun x hx => hn x (mem_cons_of_mem n hx)) (List.cons.inj htail).2]

theorem object_inj (hm : ∀ m ∈ ms, m.2.Valid) (hn : ∀ n ∈ ns, n.2.Valid)
    (h : encode (object ms) = encode (object ns)) : ms = ns :=
  members_inj hm hn (List.cons.inj (encode_injective h)).2

end Orkworksd.Lib.JsonText
