import Mathlib.Data.List.Induction
import Orkworksd.Peon.UsageScan

/- Trimming the scanned buffer, and what is read of what is left.

   The scanner that chooses the cut and the one that strips the text are two readers of one
   text. They differ in strings other than an operating system command: BEL ends them for the
   first and not for the second. `Follows` is the relation that the two keep, and what a cut
   shows that was hidden is the payload of such a string after a BEL. -/
namespace Orkworksd.Peon.UsageTrim
open Lib Ansi UsageScan

variable {rest : List Char}

/-! ## What the trimmed buffer is to be -/

/-- The longest end of a text within a limit. -/
def keepable (limit : Nat) : List Char → List Char
  | [] => []
  | c :: text => if byteLength (c :: text) ≤ limit then c :: text else keepable limit text

/-- What a limit asks to drop. -/
def asked (limit : Nat) (text : List Char) : Nat :=
  byteLength text - byteLength (keepable limit text)

/-- An escape sequence that starts before the cut is still incomplete at the end of the text. -/
def OpenBefore (text : List Char) (cut : Nat) : Prop :=
  ∃ x y, text = x ++ esc :: y ∧ byteLength x < cut ∧ Anew (after .ground x) (esc :: y) ∧
    ∀ a b, y = a ++ b → ¬Anew (after .ground (x ++ esc :: a)) b

/-- The buffer is cut to an end of it within the limit, which shows no more than it did. -/
def Trimmed (text : List Char) (limit : Nat) : Prop :=
  ∃ left, truncateUsageScanBuffer text limit = some left ∧ left <:+ text ∧
    byteLength left ≤ limit ∧ (¬OpenBefore text (byteLength text - byteLength left) →
      stripAnsiForUsageLimit left <:+ stripAnsiForUsageLimit text)

/-- A string of the text that begins before the cut asked for and is ended by an ESC, with a
BEL in its payload: `w` is what remains of the payload after the BEL and the cut. What remains
is already shown before the string. -/
def NothingExposed (text : List Char) (limit : Nat) : Prop :=
  ∀ x k u v w c rest, text = x ++ esc :: k :: u ++ bel :: v ++ w ++ esc :: c :: rest →
    after .ground (x ++ [esc, k]) = .string → bel ∉ u → esc ∉ u → esc ∉ v → esc ∉ w →
    byteLength x < asked limit text →
    byteLength (x ++ esc :: k :: u ++ bel :: v) =
      max (asked limit text) (byteLength (x ++ esc :: k :: u ++ [bel])) →
    w <:+ stripAnsiForUsageLimit x

theorem keepable_spec (limit : Nat) (text : List Char) :
    ∃ before, text = before ++ keepable limit text ∧ byteLength (keepable limit text) ≤ limit ∧
      ∀ x y, text = x ++ y → byteLength y ≤ limit → byteLength before ≤ byteLength x := by
  induction text with
  | nil => exact ⟨[], rfl, Nat.zero_le _, fun x y _ _ => Nat.zero_le _⟩
  | cons c text ih =>
    rw [keepable]
    by_cases hle : byteLength (c :: text) ≤ limit
    · rw [if_pos hle]
      exact ⟨[], rfl, hle, fun x y _ _ => Nat.zero_le _⟩
    · obtain ⟨before, hsplit, hkeep, hleast⟩ := ih
      rw [if_neg hle]
      refine ⟨c :: before, congrArg (c :: ·) hsplit, hkeep, fun x y hxy hy => ?_⟩
      cases x with
      | nil =>
        have hy' : c :: text = y := hxy
        exact absurd (hy' ▸ hy) hle
      | cons d x =>
        obtain ⟨rfl, htext⟩ := List.cons.inj hxy
        rw [byteLength_cons, byteLength_cons]
        exact Nat.add_le_add_left (hleast x y htext hy) _

variable {limit : Nat} {text : List Char}

/-- The first place from which no more than the limit is left is what the limit asks to drop. -/
theorem asked_eq {before kept : List Char} (hsplit : text = before ++ kept)
    (hkept : byteLength kept ≤ limit)
    (hleast : ∀ x y, text = x ++ y → byteLength y ≤ limit → byteLength before ≤ byteLength x) :
    asked limit text = byteLength before := by
  obtain ⟨before', hsplit', hkeep, hleast'⟩ := keepable_spec limit text
  have hlength : byteLength text = byteLength before' + byteLength (keepable limit text) := by
    rw [← byteLength_append, ← hsplit']
  have hle := hleast before' _ hsplit' hkeep
  have hge := hleast' before kept hsplit hkept
  rw [asked]
  omega

/-! ## The two readers -/

/-- The mode that the scanner is in where the reader is in mode `m`: the same one, or it has
passed a BEL in a string and takes the rest of the string for text. -/
def Follows (m n : Mode) : Prop :=
  n = coarse m ∨ (m = .string ∧ n = .ground) ∨ (m = .closing ∧ n = .escape)

variable {m : Mode}

variable {n : Mode}

theorem follows_next (h : Follows m n) (c : Char) : Follows (next m c) (scanNext n c) := by
  obtain rfl | ⟨rfl, rfl⟩ | ⟨rfl, rfl⟩ := h
  · cases m with
    | string =>
      show Follows (if c = esc then .closing else .string)
        (coarse (if c = bel then .ground else if c = esc then .closing else .osc))
      by_cases hbel : c = bel
      · rw [if_pos hbel, if_neg (hbel ▸ by decide)]
        exact .inr (.inl ⟨rfl, rfl⟩)
      · rw [if_neg hbel]
        by_cases hesc : c = esc
        · rw [if_pos hesc, if_pos hesc]
          exact .inl rfl
        · rw [if_neg hesc, if_neg hesc]
          exact .inl rfl
    | _ => exact .inl rfl
  · show Follows (if c = esc then .closing else .string)
      (coarse (if c = esc then .escape else .ground))
    by_cases hesc : c = esc
    · rw [if_pos hesc, if_pos hesc]
      exact .inr (.inr ⟨rfl, rfl⟩)
    · rw [if_neg hesc, if_neg hesc]
      exact .inr (.inl ⟨rfl, rfl⟩)
  · show Follows (if c = '\\' then .ground else begin c) (coarse (begin c))
    by_cases hc : c = '\\'
    · rw [if_pos hc, hc]
      exact .inl rfl
    · rw [if_neg hc]
      exact .inl rfl

theorem follows_after (h : Follows m n) (chars : List Char) :
    Follows (after m chars) (scanAfter n chars) := by
  induction chars generalizing m n with
  | nil => exact h
  | cons c chars ih => exact ih (follows_next h c)

theorem follows (chars : List Char) : Follows (after .ground chars) (scanAfter .ground chars) :=
  follows_after (.inl rfl) chars

variable {y x : List Char}

theorem stop_of_anew (h : Anew (after .ground x) y) : Stop x y := by
  have hfollows := follows x
  obtain hground | ⟨hstring, hbare⟩ := h
  · rw [hground] at hfollows
    obtain heq | ⟨hmode, -⟩ | ⟨hmode, -⟩ := hfollows
    · exact .inl heq
    · exact Mode.noConfusion hmode
    · exact Mode.noConfusion hmode
  · obtain heq | ⟨-, heq⟩ | ⟨hmode, -⟩ := hfollows
    · refine .inr ⟨.inl (heq.trans ?_), hbare⟩
      obtain hosc | hstring := hstring
      · rw [hosc]
        rfl
      · rw [hstring]
        rfl
    · exact .inl heq
    · rw [hmode] at hstring
      exact hstring.elim Mode.noConfusion Mode.noConfusion

theorem anew_of_stop (h : Stop x y) :
    Anew (after .ground x) y ∨ (after .ground x = .string ∧ scanAfter .ground x = .ground) := by
  obtain heq | ⟨hmode, hscan⟩ | ⟨-, hscan⟩ := follows x
  · refine .inl ?_
    rw [Stop, heq] at h
    cases hmode : after .ground x with
    | ground => exact .inl rfl
    | osc => exact .inr ⟨.inl rfl, (hmode ▸ h).elim Mode.noConfusion And.right⟩
    | string => exact .inr ⟨.inr rfl, (hmode ▸ h).elim Mode.noConfusion And.right⟩
    | _ =>
      rw [hmode] at h
      exact absurd h (not_anew Mode.noConfusion Mode.noConfusion Mode.noConfusion y)
  · exact .inr ⟨hmode, hscan⟩
  · rw [Stop, hscan] at h
    exact absurd h (not_anew Mode.noConfusion Mode.noConfusion Mode.noConfusion y)

/-! ## Strings -/

variable {k : Char}

theorem opening (h : after .ground (x ++ [esc, k]) = .string) : k ≠ '\\' ∧ begin k = .string ∧
      (after .ground x = .ground ∨ after .ground x = .osc ∨ after .ground x = .string) := by
  have hslash : begin '\\' ≠ .string := Mode.noConfusion
  -- a character on the ground, or in a control sequence, opens no string
  have hplain : (if k = esc then Mode.escape else .ground) ≠ .string := by
    split <;> exact Mode.noConfusion
  have hcsi : (if isFinal k = true then Mode.ground else .csi) ≠ .string := by
    split <;> exact Mode.noConfusion
  have hclosing (hmode : (if k = '\\' then Mode.ground else begin k) = .string) :
      k ≠ '\\' ∧ begin k = .string := by
    by_cases hk : k = '\\'
    · rw [if_pos hk] at hmode
      exact Mode.noConfusion hmode
    · rw [if_neg hk] at hmode
      exact ⟨hk, hmode⟩
  rw [after_append] at h
  cases hmode : after .ground x with
  | ground =>
    rw [hmode] at h
    exact ⟨fun hk => hslash (hk ▸ h), h, .inl rfl⟩
  | escape =>
    rw [hmode] at h
    exact absurd h hplain
  | csi =>
    rw [hmode] at h
    exact absurd h hcsi
  | osc =>
    rw [hmode] at h
    exact ⟨(hclosing h).1, (hclosing h).2, .inr (.inl rfl)⟩
  | string =>
    rw [hmode] at h
    exact ⟨(hclosing h).1, (hclosing h).2, .inr (.inr rfl)⟩
  | closing =>
    rw [hmode] at h
    exact absurd h hplain
  | one =>
    rw [hmode] at h
    exact absurd h hplain

theorem opening_anew (h : after .ground (x ++ [esc, k]) = .string) (rest : List Char) :
    Anew (after .ground x) (esc :: k :: rest) := by
  obtain ⟨hk, -, hmode⟩ := opening h
  exact hmode.imp id (fun hopen => ⟨hopen, bareEsc_cons hk rest⟩)

theorem opening_scan (h : after .ground (x ++ [esc, k]) = .string) :
    (scanAfter .ground (x ++ [esc]) = .escape ∨ scanAfter .ground (x ++ [esc]) = .closing) ∧
      scanAfter .ground (x ++ [esc, k]) = .osc := by
  obtain ⟨hk, hbegin, -⟩ := opening h
  have hbare := (stop_of_anew (opening_anew h [])).cases
  rw [scanAfter_append, scanAfter_append]
  have hosc : coarse (begin k) = .osc := by
    rw [hbegin]
    rfl
  obtain hground | ⟨hopen, -⟩ := hbare
  · rw [hground]
    exact ⟨.inl rfl, hosc⟩
  · have hclosing : scanNext (scanAfter .ground x) esc = .closing := by
      obtain heq | heq := hopen
      · rw [heq]
        rfl
      · rw [heq]
        rfl
    refine ⟨.inr hclosing, ?_⟩
    show scanNext (scanNext (scanAfter .ground x) esc) k = .osc
    rw [hclosing]
    show coarse (if k = '\\' then .ground else begin k) = .osc
    rw [if_neg hk]
    exact hosc

variable {chars : List Char}

theorem after_string (h : esc ∉ chars) : after .string chars = .string := by
  induction chars with
  | nil => rfl
  | cons c chars ih =>
    obtain ⟨hc, hchars⟩ := List.ne_and_not_mem_of_not_mem_cons h
    rw [after_cons, next, if_neg (Ne.symm hc), ih hchars]

theorem scanAfter_plain (h : esc ∉ chars) : scanAfter .ground chars = .ground := by
  induction chars with
  | nil => rfl
  | cons c chars ih =>
    obtain ⟨hc, hchars⟩ := List.ne_and_not_mem_of_not_mem_cons h
    show scanAfter (coarse (if c = esc then .escape else .ground)) chars = .ground
    rw [if_neg (Ne.symm hc)]
    exact ih hchars

theorem scanAfter_osc (hesc : esc ∉ chars) (hbel : bel ∉ chars) : scanAfter .osc chars = .osc := by
  induction chars with
  | nil => rfl
  | cons c chars ih =>
    obtain ⟨hc, hchars⟩ := List.ne_and_not_mem_of_not_mem_cons hesc
    obtain ⟨hc', hchars'⟩ := List.ne_and_not_mem_of_not_mem_cons hbel
    show scanAfter (coarse (if c = bel then .ground else if c = esc then .closing else .osc)) chars =
      .osc
    rw [if_neg (Ne.symm hc'), if_neg (Ne.symm hc)]
    exact ih hchars hchars'

variable (display : Char → List Char)

theorem shown_payload (h : esc ∉ chars) : shown display .string chars = [] := by
  induction chars with
  | nil => exact shown_nil _
  | cons c chars ih =>
    obtain ⟨hc, hchars⟩ := List.ne_and_not_mem_of_not_mem_cons h
    rw [shown_cons, next, if_neg (Ne.symm hc), ih hchars]
    rfl

theorem shown_end (c : Char) (rest : List Char) :
    shown display .string (esc :: c :: rest) = shown display .ground (esc :: c :: rest) := by
  by_cases hc : c = '\\'
  · rw [hc]
    rfl
  · exact shown_anew (.inr ⟨.inr rfl, bareEsc_cons hc rest⟩)

variable (c : Char)

theorem begin_ne : begin c ≠ .escape ∧ begin c ≠ .closing := by
  unfold begin
  split
  · exact ⟨Mode.noConfusion, Mode.noConfusion⟩
  · split
    · exact ⟨Mode.noConfusion, Mode.noConfusion⟩
    · split
      · exact ⟨Mode.noConfusion, Mode.noConfusion⟩
      · split <;> exact ⟨Mode.noConfusion, Mode.noConfusion⟩

theorem next_escaping {c : Char} (h : next m c = .escape ∨ next m c = .closing) : c = esc := by
  refine of_not_not (fun hc => ?_)
  obtain ⟨hescape, hclosing⟩ := begin_ne c
  cases m with
  | ground =>
    rw [next, if_neg hc] at h
    exact h.elim Mode.noConfusion Mode.noConfusion
  | escape => exact h.elim hescape hclosing
  | csi =>
    rw [next] at h
    split at h <;> exact h.elim Mode.noConfusion Mode.noConfusion
  | osc =>
    rw [next, if_neg hc] at h
    split at h <;> exact h.elim Mode.noConfusion Mode.noConfusion
  | string =>
    rw [next, if_neg hc] at h
    exact h.elim Mode.noConfusion Mode.noConfusion
  | closing =>
    rw [next] at h
    split at h
    · exact h.elim Mode.noConfusion Mode.noConfusion
    · exact h.elim hescape hclosing
  | one => exact h.elim Mode.noConfusion Mode.noConfusion

theorem ends_escaping (h : after .ground x = .escape ∨ after .ground x = .closing) :
    ∃ p, x = p ++ [esc] := by
  cases x using List.reverseRecOn with
  | nil => exact h.elim Mode.noConfusion Mode.noConfusion
  | append_singleton p c =>
    rw [after_append] at h
    exact ⟨p, next_escaping h ▸ rfl⟩

/-- Where the reader is in a string, a string command opened it; and the scanner has left the
string where the payload has a BEL. -/
theorem string_shape (h : after .ground x = .string) :
    ∃ p k u, after .ground (p ++ [esc, k]) = .string ∧ bel ∉ u ∧ esc ∉ u ∧
      ((x = p ++ esc :: k :: u ∧ scanAfter .ground x = .osc) ∨
        ∃ v, esc ∉ v ∧ x = p ++ esc :: k :: u ++ bel :: v) := by
  induction x using List.reverseRecOn with
  | nil => exact Mode.noConfusion h
  | append_singleton x c ih =>
    have hnext : next (after .ground x) c = .string := by
      rw [after_append] at h
      exact h
    -- the character after an ESC opens a string
    have hopens (hmode : after .ground x = .escape ∨ after .ground x = .closing) :
        ∃ p k u, after .ground (p ++ [esc, k]) = .string ∧ bel ∉ u ∧ esc ∉ u ∧
          ((x ++ [c] = p ++ esc :: k :: u ∧ scanAfter .ground (x ++ [c]) = .osc) ∨
            ∃ v, esc ∉ v ∧ x ++ [c] = p ++ esc :: k :: u ++ bel :: v) := by
      obtain ⟨p, rfl⟩ := ends_escaping hmode
      have hwhole : p ++ [esc] ++ [c] = p ++ [esc, c] := List.append_assoc p [esc] [c]
      rw [hwhole] at h ⊢
      exact ⟨p, c, [], h, List.not_mem_nil, List.not_mem_nil, .inl ⟨rfl, (opening_scan h).2⟩⟩
    cases hmode : after .ground x with
    | escape => exact hopens (.inl hmode)
    | closing => exact hopens (.inr hmode)
    | string =>
      have hesc : c ≠ esc := by
        intro hc
        rw [hmode, next, if_pos hc] at hnext
        exact Mode.noConfusion hnext
      obtain ⟨p, k, u, hopen, hbel, hu, ⟨rfl, hscan⟩ | ⟨v, hv, rfl⟩⟩ := ih hmode
      · by_cases hc : c = bel
        · refine ⟨p, k, u, hopen, hbel, hu, .inr ⟨[], List.not_mem_nil, ?_⟩⟩
          rw [hc]
        · have hu' : esc ∉ u ++ [c] := by
            rw [List.mem_append, List.mem_singleton]
            exact not_or.mpr ⟨hu, Ne.symm hesc⟩
          have hbel' : bel ∉ u ++ [c] := by
            rw [List.mem_append, List.mem_singleton]
            exact not_or.mpr ⟨hbel, Ne.symm hc⟩
          refine ⟨p, k, u ++ [c], hopen, hbel', hu', .inl ⟨?_, ?_⟩⟩
          · rw [List.append_assoc]
            rfl
          · rw [scanAfter_append, hscan]
            show coarse (if c = bel then .ground else if c = esc then .closing else .osc) = .osc
            rw [if_neg hc, if_neg hesc]
            rfl
      · refine ⟨p, k, u, hopen, hbel, hu, .inr ⟨v ++ [c], ?_, ?_⟩⟩
        · rw [List.mem_append, List.mem_singleton]
          exact not_or.mpr ⟨hv, Ne.symm hesc⟩
        · rw [List.append_assoc]
          rfl
    | ground =>
      rw [hmode, next] at hnext
      split at hnext <;> exact Mode.noConfusion hnext
    | csi =>
      rw [hmode, next] at hnext
      split at hnext <;> exact Mode.noConfusion hnext
    | osc =>
      rw [hmode, next] at hnext
      split at hnext
      · exact Mode.noConfusion hnext
      · split at hnext <;> exact Mode.noConfusion hnext
    | one =>
      rw [hmode] at hnext
      exact Mode.noConfusion hnext

variable {p u : List Char}

theorem no_stop_inside (hopen : after .ground (p ++ [esc, k]) = .string) (hbel : bel ∉ u)
    (hu : esc ∉ u) (hsplit : p ++ esc :: k :: (u ++ bel :: rest) = x ++ y)
    (hx : byteLength p < byteLength x)
    (hlt : byteLength x < byteLength (p ++ esc :: k :: u ++ [bel])) : ¬Stop x y := by
  obtain ⟨hesc, hosc⟩ := opening_scan hopen
  obtain ⟨t, hne, rfl, ht⟩ := split_lt hsplit hx
  cases t with
  | nil => exact absurd rfl hne
  | cons d t =>
    obtain ⟨rfl, htail⟩ := List.cons.inj ht
    cases t with
    | nil =>
      obtain heq | heq := hesc
      · rw [Stop, heq]
        exact not_anew Mode.noConfusion Mode.noConfusion Mode.noConfusion y
      · rw [Stop, heq]
        exact not_anew Mode.noConfusion Mode.noConfusion Mode.noConfusion y
    | cons d t =>
      obtain ⟨rfl, hrest⟩ := List.cons.inj htail
      -- what is read of the payload has no BEL yet
      obtain ⟨a, rfl, rfl⟩ : ∃ a, u = t ++ a ∧ y = a ++ bel :: rest := by
        obtain ⟨a, rfl, ha⟩ | ha := List.append_eq_append_iff.mp hrest
        · cases a with
          | nil => exact ⟨[], by rw [List.append_nil, List.append_nil], ha.symm⟩
          | cons e a =>
            have hpos := e.utf8Size_pos
            have hone : bel.utf8Size = 1 := rfl
            simp only [byteLength_append, byteLength_cons, byteLength_nil] at hlt
            omega
        · exact ha
      rw [List.mem_append, not_or] at hbel hu
      have hmode : scanAfter .ground (p ++ esc :: k :: t) = .osc := by
        rw [List.append_cons, List.append_cons, List.append_assoc p [esc] [k], scanAfter_append]
        show scanAfter (scanAfter .ground (p ++ [esc, k])) t = .osc
        rw [hosc, scanAfter_osc hu.1 hbel.1]
      rw [Stop, hmode]
      intro hanew
      obtain hground | ⟨-, c, tail, heq, -⟩ := hanew.cases
      · exact Mode.noConfusion hground
      · cases a with
        | nil => exact absurd (List.cons.inj heq).1 (by decide)
        | cons e a => exact hu.2 ((List.cons.inj heq).1 ▸ List.mem_cons_self)

variable {v : List Char}

theorem scan_payload (hopen : after .ground (p ++ [esc, k]) = .string) (hbel : bel ∉ u)
    (hu : esc ∉ u) (hv : esc ∉ v) :
    scanAfter .ground (p ++ esc :: k :: u ++ bel :: v) = .ground := by
  have hwhole : p ++ esc :: k :: u ++ bel :: v = (p ++ [esc, k]) ++ (u ++ bel :: v) := by
    simp only [List.append_assoc, List.cons_append, List.nil_append]
  rw [hwhole, scanAfter_append, (opening_scan hopen).2, scanAfter_append, scanAfter_osc hu hbel]
  exact scanAfter_plain hv

theorem after_payload (hopen : after .ground (p ++ [esc, k]) = .string) (hu : esc ∉ u)
    (hv : esc ∉ v) : after .ground (p ++ esc :: k :: u ++ bel :: v) = .string ∧
      ∀ display, shown display .ground (p ++ esc :: k :: u ++ bel :: v) =
        shown display .ground p := by
  have hwhole : p ++ esc :: k :: u ++ bel :: v = p ++ ([esc, k] ++ (u ++ bel :: v)) := by
    simp only [List.append_assoc, List.cons_append, List.nil_append]
  have hpayload : esc ∉ u ++ bel :: v := by
    rw [List.mem_append, List.mem_cons]
    exact not_or.mpr ⟨hu, not_or.mpr ⟨by decide, hv⟩⟩
  constructor
  · rw [hwhole, ← List.append_assoc, after_append, hopen, after_string hpayload]
  · intro display
    have hkind : shown display (after .ground p) [esc, k] = [] := by
      obtain heq | heq | heq := (opening hopen).2.2
      · rw [heq]
        rfl
      · rw [heq]
        rfl
      · rw [heq]
        rfl
    rw [after_append] at hopen
    rw [hwhole, shown_append, shown_append, hopen, hkind, shown_payload display hpayload,
      List.append_nil, List.append_nil]

/-! ## The cut -/

theorem truncated (hlimit : 1024 ≤ limit) (hlong : limit < byteLength text) :
    ∃ x y, text = x ++ y ∧ truncateUsageScanBuffer text limit = some y ∧
      byteLength y ≤ limit ∧ (∃ before kept, text = before ++ kept ∧
        byteLength before = asked limit text) ∧ asked limit text ≤ byteLength x ∧
      (∀ a b, text = a ++ b → asked limit text ≤ byteLength a → byteLength a < byteLength x →
        ¬Stop a b) ∧
      (Stop x y ∨ ∀ a b, text = a ++ b → asked limit text ≤ byteLength a → ¬Stop a b) := by
  obtain ⟨before, kept, x, y, hsplit, hkept, hleast, hxy, htruncate, hcut⟩ :=
    truncate_spec hlimit hlong
  have hasked := asked_eq hsplit hkept hleast
  have hlength : byteLength before + byteLength kept = byteLength x + byteLength y := by
    rw [← byteLength_append, ← byteLength_append, ← hsplit, ← hxy]
  rw [hasked]
  refine ⟨x, y, hxy, htruncate, ?_, ⟨before, kept, hsplit, rfl⟩, ?_⟩
  · obtain ⟨-, hge, -⟩ | ⟨hge, -⟩ := hcut <;> omega
  · obtain ⟨⟨x', y', hxy', hx', hstop⟩, hge, hnone⟩ | ⟨hdrop, hnone⟩ := hcut
    · obtain ⟨rfl, rfl⟩ := split_unique (hxy'.symm.trans hxy) hx'
      exact ⟨hge, hnone, .inl hstop⟩
    · exact ⟨Nat.le_of_eq hdrop.symm, fun a b hab hge _ => hnone a b hab hge, .inr hnone⟩

/-- The reader reads nothing anew in what follows a string's beginning, unless an ESC and a
character after it end the string. -/
theorem never_anew (h : ∀ w c rest, y = w ++ esc :: c :: rest → esc ∈ w) (a b : List Char)
    (hsplit : y = a ++ b) : ¬Anew (after .string a) b := by
  by_cases hesc : esc ∈ a
  · obtain ⟨w, a', rfl, hw⟩ := List.eq_append_cons_of_mem hesc
    rw [List.append_assoc] at hsplit
    cases hrest : a' ++ b with
    | nil =>
      obtain ⟨rfl, -⟩ := List.append_eq_nil_iff.mp hrest
      rw [after_append, after_string hw]
      exact not_anew Mode.noConfusion Mode.noConfusion Mode.noConfusion b
    | cons c rest =>
      refine absurd (h w c rest ?_) hw
      rw [← hrest]
      exact hsplit
  · rw [after_string hesc]
    intro hanew
    obtain hground | ⟨-, c, rest, hb, -⟩ := hanew.cases
    · exact Mode.noConfusion hground
    · exact absurd (h a c rest (hb ▸ hsplit)) hesc

variable {cut : Nat}

theorem openBefore_of (hcut : cut ≤ byteLength text) (hpos : 0 < cut)
    (h : ∀ a b, text = a ++ b → cut ≤ byteLength a → ¬Anew (after .ground a) b) :
    OpenBefore text cut := by
  have hfrom (n : Nat) : ∀ x y, y.length = n → text = x ++ y → byteLength x < cut →
      Anew (after .ground x) y → OpenBefore text cut := by
    induction n using Nat.strongRecOn with
    | ind n ih =>
      intro x y hn hsplit hlt hanew
      cases y with
      | nil =>
        rw [hsplit, List.append_nil] at hcut
        omega
      | cons c y =>
        by_cases hlater : ∃ a b, y = a ++ b ∧ Anew (after .ground (x ++ c :: a)) b
        · obtain ⟨a, b, rfl, hanew'⟩ := hlater
          have hsplit' : text = (x ++ c :: a) ++ b := by
            rw [hsplit, List.append_assoc]
            rfl
          have hlt' : byteLength (x ++ c :: a) < cut :=
            Nat.lt_of_not_le (fun hge => h _ b hsplit' hge hanew')
          refine ih b.length ?_ (x ++ c :: a) b rfl hsplit' hlt' hanew'
          rw [← hn, List.length_cons, List.length_append]
          omega
        · have hc : c = esc := by
            refine of_not_not (fun hc => hlater ⟨[], y, rfl, .inl ?_⟩)
            obtain hground | ⟨-, d, rest, hbare, -⟩ := hanew.cases
            · rw [after_append, hground, after_cons, next, if_neg hc]
              rfl
            · exact absurd (List.cons.inj hbare).1 hc
          rw [hc] at hsplit hanew hlater
          exact ⟨x, y, hsplit, hlt, hanew, fun a b hab hanew' => hlater ⟨a, b, hab, hanew'⟩⟩
  exact hfrom _ [] text rfl (List.nil_append text).symm hpos (.inl rfl)

theorem not_openBefore {z : List Char} (hsplit : text = z ++ rest) (hcut : cut ≤ byteLength z)
    (hanew : Anew (after .ground z) rest) : ¬OpenBefore text cut := by
  intro hopen
  obtain ⟨x, y, htext, hlt, -, hnone⟩ := hopen
  obtain ⟨t, hne, rfl, hy⟩ := split_lt (htext.symm.trans hsplit) (Nat.lt_of_lt_of_le hlt hcut)
  cases t with
  | nil => exact absurd rfl hne
  | cons c t =>
    obtain ⟨rfl, htail⟩ := List.cons.inj hy
    exact hnone t rest htail hanew

variable {w : List Char}

theorem exposed_cut (hsplit : text = p ++ esc :: k :: u ++ bel :: v ++ w ++ rest)
    (hxy : text = x ++ y) (hopen : after .ground (p ++ [esc, k]) = .string) (hbel : bel ∉ u)
    (hu : esc ∉ u) (hv : esc ∉ v) (hp : byteLength p < asked limit text)
    (hlength : byteLength (p ++ esc :: k :: u ++ bel :: v) =
      max (asked limit text) (byteLength (p ++ esc :: k :: u ++ [bel])))
    (hge : asked limit text ≤ byteLength x)
    (hfirst : ∀ a b, text = a ++ b → asked limit text ≤ byteLength a → byteLength a < byteLength x →
      ¬Stop a b)
    (hstop : Stop x y ∨ ∀ a b, text = a ++ b → asked limit text ≤ byteLength a → ¬Stop a b) :
    x = p ++ esc :: k :: u ++ bel :: v ∧ y = w ++ rest := by
  have hcut : text = (p ++ esc :: k :: u ++ bel :: v) ++ (w ++ rest) := by
    rw [hsplit, List.append_assoc _ w rest]
  have hground : Stop (p ++ esc :: k :: u ++ bel :: v) (w ++ rest) :=
    .inl (scan_payload hopen hbel hu hv)
  have hstopped : Stop x y :=
    hstop.elim id (fun hnone => absurd hground (hnone _ _ hcut (by omega)))
  have hle : byteLength x ≤ byteLength (p ++ esc :: k :: u ++ bel :: v) :=
    Nat.le_of_not_lt (fun hlt => hfirst _ _ hcut (by omega) hlt hground)
  have hwhole : p ++ esc :: k :: (u ++ bel :: (v ++ (w ++ rest))) = x ++ y := by
    rw [← hxy, hcut]
    simp only [List.append_assoc, List.cons_append]
  -- before the first BEL the scanner does not read anew
  have hge' : byteLength (p ++ esc :: k :: u ++ bel :: v) ≤ byteLength x := by
    refine Nat.le_of_not_lt (fun hlt => no_stop_inside hopen hbel hu hwhole ?_ ?_ hstopped)
    · omega
    · omega
  exact split_unique (hxy.symm.trans hcut) (Nat.le_antisymm hle hge')

variable (rest : List Char)

/-- What is shown of a text whose exposed payload `w` is cut off from its string, and of what
is left of it. -/
theorem shown_exposed (hopen : after .ground (p ++ [esc, k]) = .string) (hu : esc ∉ u)
    (hv : esc ∉ v) (hw : esc ∉ w) :
    stripAnsiForUsageLimit ((p ++ esc :: k :: u ++ bel :: v) ++ (w ++ esc :: c :: rest)) =
        stripAnsiForUsageLimit p ++ stripAnsiForUsageLimit (esc :: c :: rest) ∧
      stripAnsiForUsageLimit (w ++ esc :: c :: rest) =
        w ++ stripAnsiForUsageLimit (esc :: c :: rest) := by
  obtain ⟨hmode, hshown⟩ := after_payload (v := v) hopen hu hv
  simp only [stripAnsiForUsageLimit, stripAnsi_eq]
  constructor
  · rw [shown_append, hshown, hmode, shown_append, shown_payload _ hw, after_string hw, shown_end]
    rfl
  · rw [shown_append, shown_plain hw, after_plain hw]

theorem cut_exposed (hxy : text = x ++ y)
    (hasked : ∃ before kept, text = before ++ kept ∧ byteLength before = asked limit text)
    (hge : asked limit text ≤ byteLength x)
    (hfirst : ∀ a b, text = a ++ b → asked limit text ≤ byteLength a → byteLength a < byteLength x →
      ¬Stop a b) (hmode : after .ground x = .string) (hscan : scanAfter .ground x = .ground) :
    ∃ p k u v, x = p ++ esc :: k :: u ++ bel :: v ∧ after .ground (p ++ [esc, k]) = .string ∧
      bel ∉ u ∧ esc ∉ u ∧ esc ∉ v ∧ byteLength p < asked limit text ∧
      byteLength (p ++ esc :: k :: u ++ bel :: v) =
        max (asked limit text) (byteLength (p ++ esc :: k :: u ++ [bel])) := by
  obtain ⟨p, k, u, hopen, hbel, hu, ⟨-, hosc⟩ | ⟨v, hv, rfl⟩⟩ := string_shape hmode
  · exact Mode.noConfusion (hosc.symm.trans hscan)
  refine ⟨p, k, u, v, rfl, hopen, hbel, hu, hv, ?_, ?_⟩
  · -- the string's beginning is read anew
    have hsplit : text = p ++ esc :: k :: (u ++ bel :: v ++ y) := by
      rw [hxy]
      simp only [List.append_assoc, List.cons_append]
    have hpos := esc.utf8Size_pos
    refine Nat.lt_of_not_le (fun hle => hfirst p _ hsplit hle ?_ (stop_of_anew (opening_anew hopen _)))
    simp only [byteLength_append, byteLength_cons]
    omega
  · have hplace {v₁ v₂ : List Char} (h : v = v₁ ++ v₂) :
        text = (p ++ esc :: k :: u ++ bel :: v₁) ++ (v₂ ++ y) ∧
          Stop (p ++ esc :: k :: u ++ bel :: v₁) (v₂ ++ y) := by
      have hv₁ : esc ∉ v₁ := fun hmem => hv (h ▸ List.mem_append_left v₂ hmem)
      refine ⟨?_, .inl (scan_payload hopen hbel hu hv₁)⟩
      rw [hxy, h]
      simp only [List.append_assoc, List.cons_append]
    have hle : byteLength (p ++ esc :: k :: u ++ [bel]) ≤ byteLength (p ++ esc :: k :: u ++ bel :: v) := by
      simp only [byteLength_append, byteLength_cons, byteLength_nil]
      omega
    refine Nat.le_antisymm (Nat.le_of_not_lt (fun hlt => ?_)) (max_le hge hle)
    by_cases hbefore : asked limit text ≤ byteLength (p ++ esc :: k :: u ++ [bel])
    · -- the place after the BEL comes first
      obtain ⟨hsplit, hstop⟩ := hplace (List.nil_append v).symm
      exact hfirst _ _ hsplit hbefore (by omega) hstop
    · -- the place asked for comes first
      obtain ⟨before, kept, hsplit, hlength⟩ := hasked
      have hx : byteLength before < byteLength (p ++ esc :: k :: u ++ bel :: v) := by omega
      obtain ⟨v₂, -, hv₂, -⟩ := split_lt (hsplit.symm.trans hxy) hx
      have hbel' : byteLength (p ++ esc :: k :: u ++ [bel]) < byteLength before := by omega
      obtain ⟨hsplit', -⟩ := hplace (List.nil_append v).symm
      obtain ⟨v₁, -, hv₁, -⟩ := split_lt (hsplit'.symm.trans hsplit) hbel'
      have hv : v = v₁ ++ v₂ := by
        rw [hv₁, List.append_cons, List.append_assoc _ v₁] at hv₂
        exact List.append_cancel_left hv₂
      obtain ⟨-, hstop⟩ := hplace hv
      rw [List.append_cons, ← hv₁] at hstop
      have hkept : text = before ++ (v₂ ++ y) := by
        rw [hxy, hv₂, List.append_assoc]
      exact hfirst before _ hkept (Nat.le_of_eq hlength.symm) hx hstop

theorem closed_after (hmode : after .ground x = .string) (hw : esc ∉ w) :
    ∃ z r, x ++ (w ++ esc :: c :: rest) = z ++ r ∧ byteLength x ≤ byteLength z ∧
      Anew (after .ground z) r := by
  have hpayload : after .ground (x ++ w) = .string := by
    rw [after_append, hmode, after_string hw]
  by_cases hc : c = '\\'
  · refine ⟨x ++ w ++ [esc, '\\'], rest, ?_, ?_, .inl ?_⟩
    · rw [hc]
      simp only [List.append_assoc, List.cons_append, List.nil_append]
    · rw [byteLength_append, byteLength_append]
      omega
    · rw [after_append, hpayload]
      rfl
  · refine ⟨x ++ w, esc :: c :: rest, (List.append_assoc x w _).symm, ?_, ?_⟩
    · rw [byteLength_append]
      omega
    · rw [hpayload]
      exact .inr ⟨.inr rfl, bareEsc_cons hc rest⟩

theorem open_string (hmode : after .ground x = .string)
    (h : ∀ w c rest, y = w ++ esc :: c :: rest → esc ∈ w) (a b : List Char)
    (hsplit : x ++ y = a ++ b) (hx : byteLength x ≤ byteLength a) : ¬Anew (after .ground a) b := by
  obtain ⟨t, rfl, hy⟩ : ∃ t, a = x ++ t ∧ y = t ++ b := by
    obtain hlt | heq := Nat.lt_or_eq_of_le hx
    · obtain ⟨t, -, ht, hy⟩ := split_lt hsplit hlt
      exact ⟨t, ht, hy⟩
    · obtain ⟨rfl, rfl⟩ := split_unique hsplit heq
      exact ⟨[], (List.append_nil x).symm, rfl⟩
  rw [after_append, hmode]
  exact never_anew h t b hy

theorem asked_eq_zero (h : byteLength text ≤ limit) : asked limit text = 0 := by
  rw [asked]
  cases text with
  | nil => rfl
  | cons c text => rw [keepable, if_pos h, Nat.sub_self]

theorem nothing_exposed (hlimit : 1024 ≤ limit) (htrimmed : Trimmed text limit) :
    NothingExposed text limit := by
  intro p k u v w c rest hsplit hopen hbel hu hv hw hp hlength
  by_cases hlong : limit < byteLength text
  · obtain ⟨x, y, hxy, htruncate, -, -, hge, hfirst, hstop⟩ := truncated hlimit hlong
    have hdrop : byteLength text - byteLength y = byteLength x := by
      rw [hxy, byteLength_append, Nat.add_sub_cancel]
    obtain ⟨left, hleft, -, -, hshown⟩ := htrimmed
    have hy : y = left := Option.some.inj (htruncate.symm.trans hleft)
    rw [← hy, hdrop] at hshown
    obtain ⟨hx, hy⟩ := exposed_cut hsplit hxy hopen hbel hu hv hp hlength hge hfirst hstop
    -- the string is closed after the cut
    have hclosed : ¬OpenBefore text (byteLength x) := by
      obtain ⟨z, r, hz, hxz, hanew⟩ := closed_after c rest (hx ▸ (after_payload hopen hu hv).1) hw
      rw [← hy, ← hxy] at hz
      exact not_openBefore hz hxz hanew
    have hsuffix := hshown hclosed
    obtain ⟨hwhole, hkept⟩ := shown_exposed c rest hopen hu hv hw
    rw [hxy, hx, hy, hwhole, hkept] at hsuffix
    obtain ⟨t, ht⟩ := hsuffix
    rw [← List.append_assoc] at ht
    exact ⟨t, List.append_cancel_right ht⟩
  · rw [asked_eq_zero (Nat.le_of_not_lt hlong)] at hp
    exact absurd hp (Nat.not_lt_zero _)

theorem trimmed_of (hlimit : 1024 ≤ limit) (hnothing : NothingExposed text limit) :
    Trimmed text limit := by
  by_cases hlong : limit < byteLength text
  · obtain ⟨x, y, hxy, htruncate, hle, hasked, hge, hfirst, hstop⟩ := truncated hlimit hlong
    have hlength : byteLength text = byteLength x + byteLength y := by
      rw [hxy, byteLength_append]
    have hdrop : byteLength text - byteLength y = byteLength x := by omega
    refine ⟨y, htruncate, ⟨x, hxy.symm⟩, hle, fun hclosed => ?_⟩
    rw [hdrop] at hclosed
    have hopened (h : ∀ a b, text = a ++ b → byteLength x ≤ byteLength a →
        ¬Anew (after .ground a) b) : False :=
      hclosed (openBefore_of (by omega) (by omega) h)
    obtain hstop | hnone := hstop
    · obtain hanew | ⟨hmode, hscan⟩ := anew_of_stop hstop
      · rw [hxy, stripAnsiForUsageLimit, stripAnsiForUsageLimit, stripAnsi_eq, stripAnsi_eq,
          shown_append, shown_anew hanew]
        exact List.suffix_append _ _
      · obtain ⟨p, k, u, v, hx, hopen, hbel, hu, hv, hp, hcut⟩ :=
          cut_exposed hxy hasked hge hfirst hmode hscan
        by_cases hend : ∀ w c rest, y = w ++ esc :: c :: rest → esc ∈ w
        · exact (hopened (fun a b hab => open_string hmode hend a b (hxy ▸ hab))).elim
        · simp only [not_forall] at hend
          obtain ⟨w, c, rest, hy, hw⟩ := hend
          have hwhole : text = p ++ esc :: k :: u ++ bel :: v ++ w ++ esc :: c :: rest := by
            rw [hxy, hx, hy, List.append_assoc _ w]
          obtain ⟨t, ht⟩ := hnothing p k u v w c rest hwhole hopen hbel hu hv hw hp hcut
          obtain ⟨htext, hkept⟩ := shown_exposed c rest hopen hu hv hw
          rw [hxy, hx, hy, htext, hkept, ← ht, List.append_assoc]
          exact List.suffix_append t _
    · exact (hopened (fun a b hab hxa hanew =>
        hnone a b hab (Nat.le_trans hge hxa) (stop_of_anew hanew))).elim
  · have hle := Nat.le_of_not_lt hlong
    exact ⟨text, if_pos hle, List.suffix_refl text, hle, fun _ => List.suffix_refl _⟩

/-- The buffer is trimmed without showing what was hidden exactly when nothing is exposed. -/
theorem trimmed_iff (text : List Char) (limit : Nat) (hlimit : 1024 ≤ limit) :
    Trimmed text limit ↔ NothingExposed text limit :=
  ⟨nothing_exposed hlimit, trimmed_of hlimit⟩

/-- A device control string of 1024 characters after a BEL. -/
def hiddenPayload : List Char := esc :: 'P' :: bel :: List.replicate 1024 'x' ++ [esc, '\\']

theorem trimmed_iff_hidden :
    1024 ≤ 1024 ∧ (Trimmed hiddenPayload 1024 ↔ NothingExposed hiddenPayload 1024) :=
  ⟨Nat.le_refl 1024, trimmed_iff hiddenPayload 1024 (Nat.le_refl 1024)⟩

theorem asked_hiddenPayload : asked 1024 hiddenPayload = 5 := by
  decide +kernel

/-- The last 1022 characters of the payload are read as text. -/
theorem payload_exposed : ¬∀ text limit, 1024 ≤ limit → Trimmed text limit := by
  intro h
  have hnothing := nothing_exposed (Nat.le_refl 1024) (h hiddenPayload 1024 (Nat.le_refl 1024))
  have hx : esc ∉ List.replicate 1022 'x' := fun hmem =>
    absurd (List.eq_of_mem_replicate hmem) (by decide)
  obtain ⟨t, ht⟩ := hnothing [] 'P' [] ['x', 'x'] (List.replicate 1022 'x') '\\' [] rfl rfl
    List.not_mem_nil List.not_mem_nil (by decide) hx
    (by rw [asked_hiddenPayload]; decide) (by rw [asked_hiddenPayload]; decide)
  exact absurd (congrArg List.length ht) (by
    rw [List.length_append, List.length_replicate]
    show t.length + 1022 ≠ 0
    omega)

end Orkworksd.Peon.UsageTrim
