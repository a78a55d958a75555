import Orkworksd.Lib.JsonText
import Orkworksd.Peon.StripAnsi

/- The rolling buffer that is scanned for usage limits (`peon.rs`:
   `truncate_usage_scan_buffer`, `safe_ansi_drop_offset`, `ansi_sequence_end`).

   The buffer is a text, and the scanner that chooses where to cut it runs over its UTF-8
   bytes; an offset that is not the beginning of a character has no text (`textFrom`). -/
namespace Orkworksd.Peon.UsageScan
open Lib Ansi

/-! ## The source -/

/-- `str::as_bytes`. -/
def bytesOf (text : List Char) : List UInt8 := JsonText.encode text

/-- `str::len`. -/
def byteLength (text : List Char) : Nat := (bytesOf text).length

/-- `str::get(offset..)`. -/
def textFrom : Nat → List Char → Option (List Char)
  | 0, text => some text
  | _ + 1, [] => none
  | offset + 1, c :: text =>
    if c.utf8Size ≤ offset + 1 then textFrom (offset + 1 - c.utf8Size) text else none

def maxIncompleteAnsiBytes : Nat := 1024

def ansiCharEnd (input : List Char) (start : Nat) : Option Nat :=
  ((textFrom start input).bind List.head?).map (fun character => start + character.utf8Size)

/-- The loop of a control sequence. -/
def csiEnd : Nat → List UInt8 → Option Nat
  | _, [] => none
  | offset, byte :: bytes =>
    if 0x40 ≤ byte ∧ byte ≤ 0x7e then some (offset + 1) else csiEnd (offset + 1) bytes

/-- The loop of a string command. -/
def stringEnd : Nat → List UInt8 → Option Nat
  | _, [] => none
  | offset, byte :: bytes =>
    if byte = 0x07 then some (offset + 1)
    else if byte = 0x1b then
      match bytes with
      | [] => none
      | next :: _ => if next = 0x5c then some (offset + 2) else some offset
    else stringEnd (offset + 1) bytes

def ansiSequenceEnd (input : List Char) (start : Nat) : Option Nat :=
  if (bytesOf input)[start]? ≠ some 0x1b then some (start + 1)
  else
    match (bytesOf input)[start + 1]? with
    | none => none
    | some kind =>
      if kind = 0x5b then csiEnd (start + 2) ((bytesOf input).drop (start + 2))
      else if kind ∈ [0x5d, 0x50, 0x58, 0x5e, 0x5f] then
        stringEnd (start + 2) ((bytesOf input).drop (start + 2))
      else if kind ∈ [0x4f, 0x28, 0x29, 0x25] then ansiCharEnd input (start + 2)
      else ansiCharEnd input (start + 1)

/-- The loop of `safe_ansi_drop_offset`; no offset where `bytes[offset]` or `input[offset..]`
would panic, or where the fuel is used up. -/
def dropLoop (input : List Char) (requestedDrop : Nat) : Nat → Nat → Option Nat
  | 0, _ => none
  | fuel + 1, offset =>
    if offset < requestedDrop then
      if byteLength input ≤ offset then none
      else if (bytesOf input)[offset]? = some 0x1b then
        match ansiSequenceEnd input offset with
        | some finish =>
          if finish ≤ requestedDrop then dropLoop input requestedDrop fuel finish else some finish
        | none =>
          some (if maxIncompleteAnsiBytes < byteLength input - offset then requestedDrop else offset)
      else
        (textFrom offset input).bind (fun rest => dropLoop input requestedDrop fuel
          (offset + (rest.head?.map Char.utf8Size).getD 1))
    else some requestedDrop

def safeAnsiDropOffset (input : List Char) (requestedDrop : Nat) : Option Nat :=
  dropLoop input requestedDrop (requestedDrop + 1) 0

/-- The loop that moves the requested drop to the beginning of a character. -/
def charBoundary (text : List Char) : Nat → Nat → Nat
  | 0, offset => offset
  | fuel + 1, offset =>
    if offset < byteLength text ∧ (textFrom offset text).isNone then
      charBoundary text fuel (offset + 1)
    else offset

def requestedDrop (text : List Char) (maxBytes : Nat) : Nat :=
  charBoundary text maxBytes (byteLength text - maxBytes)

/-- What is left of the buffer; no text where `drain` or the choice of the offset would panic. -/
def truncateUsageScanBuffer (scanBuf : List Char) (maxBytes : Nat) : Option (List Char) :=
  if byteLength scanBuf ≤ maxBytes then some scanBuf
  else if maxBytes = 0 then some []
  else
    (safeAnsiDropOffset scanBuf (requestedDrop scanBuf maxBytes)).bind (fun drop =>
      textFrom drop scanBuf)

/-! ## Offsets and characters -/

@[simp] theorem byteLength_nil : byteLength [] = 0 := rfl

@[simp] theorem byteLength_cons (c : Char) (text : List Char) :
    byteLength (c :: text) = c.utf8Size + byteLength text := by
  rw [byteLength, bytesOf, JsonText.encode_cons, List.length_append, String.length_utf8EncodeChar]
  rfl

variable (x y : List Char)

@[simp] theorem byteLength_append : byteLength (x ++ y) = byteLength x + byteLength y := by
  rw [byteLength, bytesOf, JsonText.encode_append, List.length_append]
  rfl

theorem textFrom_append : textFrom (byteLength x) (x ++ y) = some y := by
  induction x with
  | nil => rw [byteLength_nil, textFrom, List.nil_append]
  | cons c x ih =>
    have hpos := c.utf8Size_pos
    obtain ⟨n, hn⟩ : ∃ n, c.utf8Size + byteLength x = n + 1 :=
      ⟨c.utf8Size + byteLength x - 1, by omega⟩
    rw [byteLength_cons, hn, List.cons_append, textFrom, if_pos (by omega), ← hn,
      Nat.add_sub_cancel_left]
    exact ih

variable {rest : List Char}

theorem textFrom_some {offset : Nat} {text : List Char} (h : textFrom offset text = some rest) :
    ∃ x, text = x ++ rest ∧ byteLength x = offset := by
  induction text generalizing offset with
  | nil =>
    cases offset with
    | zero => exact ⟨[], Option.some.inj h, rfl⟩
    | succ offset => exact absurd h (by simp [textFrom])
  | cons c text ih =>
    cases offset with
    | zero => exact ⟨[], Option.some.inj h, rfl⟩
    | succ offset =>
      rw [textFrom] at h
      split at h
      · next hsize =>
        obtain ⟨x, hx, hlength⟩ := ih h
        refine ⟨c :: x, congrArg (c :: ·) hx, ?_⟩
        rw [byteLength_cons, hlength]
        omega
      · exact absurd h (Option.some_ne_none rest).symm

theorem split_unique {x y x' y' : List Char} (h : x ++ y = x' ++ y')
    (hlength : byteLength x = byteLength x') : x = x' ∧ y = y' := by
  have hrest : some y = some y' := by
    rw [← textFrom_append x y, h, hlength, textFrom_append]
  have hy := Option.some.inj hrest
  rw [← hy] at h
  exact ⟨List.append_cancel_right h, hy⟩

theorem split_lt {x y x' y' : List Char} (h : x ++ y = x' ++ y')
    (hlength : byteLength x < byteLength x') : ∃ a, a ≠ [] ∧ x' = x ++ a ∧ y = a ++ y' := by
  obtain ⟨a, hx', hy⟩ | ⟨a, hx, -⟩ := List.append_eq_append_iff.mp h
  · refine ⟨a, fun ha => ?_, hx', hy⟩
    rw [hx', ha, List.append_nil] at hlength
    exact Nat.lt_irrefl _ hlength
  · rw [hx, byteLength_append] at hlength
    omega

theorem bytesOf_append : bytesOf (x ++ y) = bytesOf x ++ bytesOf y :=
  JsonText.encode_append x y

theorem bytesOf_cons (c : Char) (text : List Char) :
    bytesOf (c :: text) = String.utf8EncodeChar c ++ bytesOf text := JsonText.encode_cons c text

variable {c : Char}

theorem bytesOf_ascii (h : c.toNat < 0x80) (text : List Char) :
    bytesOf (c :: text) = UInt8.ofNat c.toNat :: bytesOf text := by
  have hone : bytesOf [c] = [UInt8.ofNat c.toNat] := JsonText.encode_singleton h
  rw [← List.singleton_append, bytesOf_append, hone, List.singleton_append]

theorem utf8Size_ascii (h : c.toNat < 0x80) : c.utf8Size = 1 := by
  rw [← String.length_utf8EncodeChar, ← List.append_nil (String.utf8EncodeChar c)]
  exact congrArg List.length (JsonText.encode_singleton h)

theorem head_byte (c : Char) (text : List Char) : ∃ byte, (bytesOf (c :: text))[0]? = some byte ∧
    ∀ d : Char, d.toNat < 0x80 → (byte = UInt8.ofNat d.toNat ↔ c = d) := by
  obtain ⟨byte, bytes, hbytes⟩ := List.exists_cons_of_ne_nil (@String.utf8EncodeChar_ne_nil c)
  have hmem : byte ∈ String.utf8EncodeChar c := hbytes ▸ List.mem_cons_self
  refine ⟨byte, ?_, fun d hd => ?_⟩
  · rw [bytesOf_cons, hbytes]
    rfl
  · have hdbyte : (UInt8.ofNat d.toNat).toNat = d.toNat := by
      rw [UInt8.toNat_ofNat']
      omega
    constructor
    · intro heq
      obtain ⟨hc, hbyte⟩ | ⟨-, hge⟩ := JsonText.mem_utf8EncodeChar hmem
      · have hnat : c.toNat = d.toNat := by
          rw [← hdbyte, ← heq, hbyte, UInt8.toNat_ofNat']
          omega
        exact Char.toNat_inj.mp hnat
      · rw [heq, hdbyte] at hge
        omega
    · intro heq
      obtain ⟨-, hbyte⟩ | ⟨hge, -⟩ := JsonText.mem_utf8EncodeChar hmem
      · rw [hbyte, heq]
      · rw [heq] at hge
        omega

theorem bytes_at (i : Nat) : (bytesOf (x ++ y))[byteLength x + i]? = (bytesOf y)[i]? := by
  rw [bytesOf_append]
  show (bytesOf x ++ bytesOf y)[(bytesOf x).length + i]? = _
  rw [List.getElem?_append_right (Nat.le_add_right _ _), Nat.add_sub_cancel_left]

theorem bytes_from : (bytesOf (x ++ y)).drop (byteLength x) = bytesOf y := by
  rw [bytesOf_append]
  exact List.drop_left

/-! ## The scanner, one character at a time

What the scanner does not do as the reader of `Lib.Ansi`: it ends every string at BEL. -/

def coarse (m : Mode) : Mode := if m = .string then .osc else m

def scanNext (m : Mode) (c : Char) : Mode := coarse (next m c)

def scanAfter (m : Mode) (chars : List Char) : Mode := chars.foldl scanNext m

/-- The bytes up to where the scanner reads anew. -/
def scanStop : Mode → List Char → Option Nat
  | m, [] => if Anew m [] then some 0 else none
  | m, c :: text =>
    if Anew m (c :: text) then some 0 else (scanStop (scanNext m c) text).map (c.utf8Size + ·)

variable {m : Mode}

theorem not_anew (h : m ≠ .ground) (hosc : m ≠ .osc) (hstring : m ≠ .string) (chars : List Char) :
    ¬Anew m chars :=
  fun hanew => hanew.elim h (fun hopen => hopen.1.elim hosc hstring)

variable (text : List Char)

theorem scanStop_ground : scanStop .ground text = some 0 := by
  cases text <;> exact if_pos (.inl rfl)

theorem scanStop_cons {text : List Char} (h : ¬Anew m (c :: text)) :
    scanStop m (c :: text) = (scanStop (scanNext m c) text).map (c.utf8Size + ·) :=
  if_neg h

theorem isFinal_iff (c : Char) : isFinal c = true ↔ 0x40 ≤ c.toNat ∧ c.toNat ≤ 0x7e := by
  rw [isFinal, Bool.and_eq_true, decide_eq_true_iff, decide_eq_true_iff]
  exact Iff.rfl

theorem final_byte (h : c.toNat < 0x80) :
    (0x40 ≤ UInt8.ofNat c.toNat ∧ UInt8.ofNat c.toNat ≤ 0x7e) ↔ isFinal c = true := by
  have hbyte : (UInt8.ofNat c.toNat).toNat = c.toNat := by
    rw [UInt8.toNat_ofNat']
    omega
  rw [isFinal_iff, UInt8.le_iff_toNat_le, UInt8.le_iff_toNat_le, hbyte]
  exact Iff.rfl

theorem ascii_or (c : Char) :
    c.toNat < 0x80 ∨ (0x80 ≤ c.toNat ∧ ∀ byte ∈ String.utf8EncodeChar c, 0x80 ≤ byte.toNat) := by
  by_cases h : c.toNat < 0x80
  · exact .inl h
  · refine .inr ⟨Nat.le_of_not_lt h, fun byte hbyte => ?_⟩
    obtain ⟨hlt, -⟩ | ⟨-, hge⟩ := JsonText.mem_utf8EncodeChar hbyte
    · exact absurd hlt h
    · exact hge

theorem csiEnd_skip {bytes : List UInt8} (h : ∀ byte ∈ bytes, 0x80 ≤ byte.toNat)
    (offset : Nat) (rest : List UInt8) :
    csiEnd offset (bytes ++ rest) = csiEnd (offset + bytes.length) rest := by
  induction bytes generalizing offset with
  | nil => rfl
  | cons byte bytes ih =>
    have hge := h byte List.mem_cons_self
    have hfinal : ¬(0x40 ≤ byte ∧ byte ≤ 0x7e) := by
      intro hbyte
      have hle : byte.toNat ≤ 0x7e := UInt8.le_iff_toNat_le.mp hbyte.2
      omega
    rw [List.cons_append, csiEnd, if_neg hfinal,
      ih (fun b hb => h b (List.mem_cons_of_mem byte hb)), List.length_cons, Nat.add_assoc,
      Nat.add_comm 1]

theorem stringEnd_cons {byte : UInt8} (hbel : byte ≠ 0x07) (hesc : byte ≠ 0x1b) (offset : Nat)
    (bytes : List UInt8) : stringEnd offset (byte :: bytes) = stringEnd (offset + 1) bytes := by
  rw [stringEnd.eq_def]
  exact (if_neg hbel).trans (if_neg hesc)

theorem stringEnd_skip {bytes : List UInt8} (h : ∀ byte ∈ bytes, 0x80 ≤ byte.toNat)
    (offset : Nat) (rest : List UInt8) :
    stringEnd offset (bytes ++ rest) = stringEnd (offset + bytes.length) rest := by
  induction bytes generalizing offset with
  | nil => rfl
  | cons byte bytes ih =>
    have hge := h byte List.mem_cons_self
    have hbel : byte ≠ 0x07 := fun heq => absurd (heq ▸ hge) (by decide)
    have hesc : byte ≠ 0x1b := fun heq => absurd (heq ▸ hge) (by decide)
    rw [List.cons_append, stringEnd_cons hbel hesc,
      ih (fun b hb => h b (List.mem_cons_of_mem byte hb)), List.length_cons, Nat.add_assoc,
      Nat.add_comm 1]

variable (offset : Nat)

theorem csiEnd_eq : csiEnd offset (bytesOf text) = (scanStop .csi text).map (offset + ·) := by
  induction text generalizing offset with
  | nil => rfl
  | cons c text ih =>
    rw [scanStop_cons (not_anew Mode.noConfusion Mode.noConfusion Mode.noConfusion _), scanNext, next]
    obtain hascii | ⟨hbeyond, hbytes⟩ := ascii_or c
    · rw [bytesOf_ascii hascii, csiEnd, utf8Size_ascii hascii]
      by_cases hfinal : isFinal c = true
      · rw [if_pos ((final_byte hascii).mpr hfinal), if_pos hfinal, coarse,
          if_neg Mode.noConfusion, scanStop_ground]
        rfl
      · rw [if_neg (fun h => hfinal ((final_byte hascii).mp h)), if_neg hfinal, ih, coarse,
          if_neg Mode.noConfusion, Option.map_map]
        exact congrArg (fun f => Option.map f _) (funext fun n => Nat.add_assoc offset 1 n)
    · have hfinal : ¬isFinal c = true := by
        rw [isFinal_iff]
        omega
      rw [bytesOf_cons, csiEnd_skip hbytes, String.length_utf8EncodeChar, ih, if_neg hfinal, coarse,
        if_neg Mode.noConfusion, Option.map_map]
      exact congrArg (fun f => Option.map f _) (funext fun n => Nat.add_assoc offset c.utf8Size n)

theorem stringEnd_bel (bytes : List UInt8) :
    stringEnd offset (0x07 :: bytes) = some (offset + 1) := by
  rw [stringEnd.eq_def]
  rfl

theorem stringEnd_esc (bytes : List UInt8) : stringEnd offset (0x1b :: bytes) =
      bytes[0]?.map (fun byte => if byte = 0x5c then offset + 2 else offset) := by
  rw [stringEnd.eq_def]
  cases bytes with
  | nil => rfl
  | cons byte bytes =>
    show (if byte = 0x5c then some (offset + 2) else some offset) = _
    rw [← apply_ite some]
    rfl

theorem stringEnd_eq : stringEnd offset (bytesOf text) = (scanStop .osc text).map (offset + ·) := by
  induction text generalizing offset with
  | nil => rfl
  | cons c text ih =>
    by_cases hesc : c = esc
    · rw [hesc, bytesOf_ascii (by decide)]
      show stringEnd offset (0x1b :: bytesOf text) = _
      rw [stringEnd_esc]
      cases text with
      | nil => rfl
      | cons c rest =>
        obtain ⟨byte, hbyte, hchar⟩ := head_byte c rest
        have hslash : byte = 0x5c ↔ c = '\\' := hchar '\\' (by decide)
        rw [hbyte, Option.map_some]
        by_cases hc : c = '\\'
        · rw [if_pos (hslash.mpr hc), hc,
            scanStop_cons (by simp [Anew, BareEsc])]
          show some (offset + 2) =
            ((scanStop .closing ('\\' :: rest)).map (esc.utf8Size + ·)).map (offset + ·)
          rw [scanStop_cons (not_anew Mode.noConfusion Mode.noConfusion Mode.noConfusion _)]
          show some (offset + 2) = (((scanStop .ground rest).map (Char.utf8Size '\\' + ·)).map
            (esc.utf8Size + ·)).map (offset + ·)
          rw [scanStop_ground]
          rfl
        · rw [if_neg (fun h => hc (hslash.mp h)), scanStop,
            if_pos (.inr ⟨.inl rfl, bareEsc_cons hc rest⟩)]
          rfl
    · have hanew : ¬Anew .osc (c :: text) := fun hanew =>
        hanew.elim Mode.noConfusion (fun hopen => hesc (Option.some.inj hopen.2.1))
      rw [scanStop_cons hanew, scanNext, next]
      obtain hascii | ⟨hbeyond, hbytes⟩ := ascii_or c
      · obtain ⟨byte, hbyte, hchar⟩ := head_byte c text
        rw [bytesOf_ascii hascii, utf8Size_ascii hascii] at *
        by_cases hbel : c = bel
        · rw [hbel, if_pos rfl, coarse, if_neg Mode.noConfusion, scanStop_ground]
          exact stringEnd_bel offset _
        · have hbyte' := Option.some.inj hbyte
          rw [stringEnd_cons
              (fun h => hbel ((hchar bel (by decide)).mp (hbyte'.symm.trans h)))
              (fun h => hesc ((hchar esc (by decide)).mp (hbyte'.symm.trans h))),
            if_neg hbel, if_neg hesc, ih, coarse, if_neg Mode.noConfusion, Option.map_map]
          exact congrArg (fun f => Option.map f _) (funext fun n => Nat.add_assoc offset 1 n)
      · have hbel : c ≠ bel := fun heq => absurd (heq ▸ hbeyond) (by decide)
        rw [bytesOf_cons, stringEnd_skip hbytes, String.length_utf8EncodeChar, ih, if_neg hbel,
          if_neg hesc, coarse, if_neg Mode.noConfusion, Option.map_map]
        exact congrArg (fun f => Option.map f _) (funext fun n => Nat.add_assoc offset c.utf8Size n)

theorem ansiCharEnd_append (rest : List Char) : ansiCharEnd (x ++ rest) (byteLength x) =
    rest.head?.map (fun character => byteLength x + character.utf8Size) := by
  rw [ansiCharEnd, textFrom_append]
  rfl

theorem scanStop_one : scanStop .one text = text.head?.map Char.utf8Size := by
  cases text with
  | nil => rfl
  | cons c text =>
    rw [scanStop_cons (not_anew Mode.noConfusion Mode.noConfusion Mode.noConfusion _)]
    show (scanStop .ground text).map (c.utf8Size + ·) = _
    rw [scanStop_ground]
    rfl

theorem scanNext_esc (h : Anew m (esc :: c :: rest)) : scanStop (scanNext m esc) (c :: rest) =
      (scanStop (coarse (begin c)) rest).map (c.utf8Size + ·) := by
  obtain rfl | ⟨hstring, c', rest', heq, hc⟩ := h.cases
  · exact scanStop_cons (not_anew Mode.noConfusion Mode.noConfusion Mode.noConfusion _)
  · obtain ⟨-, htail⟩ := List.cons.inj heq
    obtain ⟨rfl, rfl⟩ := List.cons.inj htail
    have hclosing : scanNext m esc = .closing := by
      obtain rfl | rfl := hstring <;> rfl
    rw [hclosing, scanStop_cons (not_anew Mode.noConfusion Mode.noConfusion Mode.noConfusion _)]
    show (scanStop (coarse (if c = '\\' then .ground else begin c)) rest).map _ = _
    rw [if_neg hc]

theorem string_kind (h : c ∈ stringKinds) : c.toNat < 0x80 ∧ coarse (begin c) = .osc := by
  have hall : stringKinds.all (fun d => decide (d.toNat < 0x80 ∧ coarse (begin d) = .osc)) = true := by
    decide
  exact of_decide_eq_true (List.all_eq_true.mp hall c h)

theorem one_kind (h : c ∈ oneKinds) : c.toNat < 0x80 ∧ coarse (begin c) = .one := by
  have hall : oneKinds.all (fun d => decide (d.toNat < 0x80 ∧ coarse (begin d) = .one)) = true := by
    decide
  exact of_decide_eq_true (List.all_eq_true.mp hall c h)

theorem ansiSequenceEnd_eq (h : Anew m (esc :: rest)) :
    ansiSequenceEnd (x ++ esc :: rest) (byteLength x) =
      (scanStop (scanNext m esc) rest).map (byteLength x + 1 + ·) := by
  have hfirst : (bytesOf (x ++ esc :: rest))[byteLength x]? = some 0x1b := by
    rw [← Nat.add_zero (byteLength x), bytes_at, bytesOf_ascii (by decide)]
    rfl
  have hsecond : (bytesOf (x ++ esc :: rest))[byteLength x + 1]? = (bytesOf rest)[0]? := by
    rw [bytes_at, bytesOf_ascii (by decide), List.getElem?_cons_succ]
  rw [ansiSequenceEnd, if_neg (not_not_intro hfirst), hsecond]
  cases rest with
  | nil =>
    -- the sequence is an ESC at the end, so no string is open before it
    obtain rfl | ⟨-, c, rest, heq, -⟩ := h.cases
    · rfl
    · exact absurd (List.cons.inj heq).2 (List.cons_ne_nil c rest).symm
  | cons c rest =>
    obtain ⟨kind, hkind, hchar⟩ := head_byte c rest
    rw [hkind, scanNext_esc h, Option.map_map]
    show (if kind = 0x5b then _ else if kind ∈ [0x5d, 0x50, 0x58, 0x5e, 0x5f] then _
      else if kind ∈ [0x4f, 0x28, 0x29, 0x25] then _ else _) = _
    -- what follows the two characters that begin the sequence
    have hwhole : x ++ esc :: c :: rest = (x ++ [esc, c]) ++ rest := by
      rw [List.append_assoc]
      rfl
    have hlength (hascii : c.toNat < 0x80) : byteLength (x ++ [esc, c]) = byteLength x + 2 := by
      rw [byteLength_append, byteLength_cons, byteLength_cons, utf8Size_ascii hascii]
      rfl
    have hadd (k : Nat) : ((fun n => byteLength x + 1 + n) ∘ fun n => k + n) =
        fun n => byteLength x + 1 + k + n := funext fun n => (Nat.add_assoc _ k n).symm
    have hbracket : kind = 0x5b ↔ c = '[' := hchar '[' (by decide)
    have hkinds : kind ∈ [0x5d, 0x50, 0x58, 0x5e, 0x5f] ↔ c = ']' ∨ c ∈ stringKinds := by
      simp only [stringKinds, List.mem_cons, List.not_mem_nil, or_false]
      exact or_congr (hchar ']' (by decide)) (or_congr (hchar 'P' (by decide))
        (or_congr (hchar 'X' (by decide)) (or_congr (hchar '^' (by decide))
          (hchar '_' (by decide)))))
    have hones : kind ∈ [0x4f, 0x28, 0x29, 0x25] ↔ c ∈ oneKinds := by
      simp only [oneKinds, List.mem_cons, List.not_mem_nil, or_false]
      exact or_congr (hchar 'O' (by decide)) (or_congr (hchar '(' (by decide))
        (or_congr (hchar ')' (by decide)) (hchar '%' (by decide))))
    rw [hadd]
    by_cases hcsi : c = '['
    · have hascii : c.toNat < 0x80 := hcsi ▸ (by decide)
      rw [if_pos (hbracket.mpr hcsi), hwhole, ← hlength hascii, bytes_from, csiEnd_eq,
        hlength hascii, utf8Size_ascii hascii, hcsi]
      rfl
    · rw [if_neg (fun h => hcsi (hbracket.mp h))]
      by_cases hstring : c = ']' ∨ c ∈ stringKinds
      · obtain ⟨hascii, hmode⟩ : c.toNat < 0x80 ∧ coarse (begin c) = .osc :=
          hstring.elim (fun heq => heq ▸ ⟨by decide, rfl⟩) string_kind
        rw [if_pos (hkinds.mpr hstring), hwhole, ← hlength hascii, bytes_from, stringEnd_eq,
          hlength hascii, utf8Size_ascii hascii, hmode]
      · rw [if_neg (fun h => hstring (hkinds.mp h))]
        by_cases hone : c ∈ oneKinds
        · obtain ⟨hascii, hmode⟩ := one_kind hone
          rw [if_pos (hones.mpr hone), hwhole, ← hlength hascii, ansiCharEnd_append, hmode,
            scanStop_one, hlength hascii, utf8Size_ascii hascii, Option.map_map]
          rfl
        · have hmode : coarse (begin c) = .ground := by
            obtain ⟨hosc, hkind⟩ := not_or.mp hstring
            rw [begin, if_neg hcsi, if_neg hosc, if_neg hkind, if_neg hone]
            rfl
          have hnext : x ++ esc :: c :: rest = (x ++ [esc]) ++ c :: rest := by
            rw [List.append_assoc]
            rfl
          have hstart : byteLength (x ++ [esc]) = byteLength x + 1 := byteLength_append x [esc]
          rw [if_neg (fun h => hone (hones.mp h)), hnext, ← hstart, ansiCharEnd_append, hmode,
            scanStop_ground]
          rfl

/-! ## The cut -/

/-- The scanner reads anew between two pieces of a text. -/
def Stop (x y : List Char) : Prop := Anew (scanAfter .ground x) y

theorem scanAfter_append (m : Mode) (x y : List Char) :
    scanAfter m (x ++ y) = scanAfter (scanAfter m x) y :=
  List.foldl_append

theorem scanStop_some {text : List Char} {n : Nat} (h : scanStop m text = some n) :
    (∃ a b, text = a ++ b ∧ byteLength a = n ∧ Anew (scanAfter m a) b) ∧
      ∀ a b, text = a ++ b → byteLength a < n → ¬Anew (scanAfter m a) b := by
  induction text generalizing m n with
  | nil =>
    rw [scanStop] at h
    split at h
    · next hanew =>
      have hn : 0 = n := Option.some.inj h
      exact ⟨⟨[], [], rfl, hn, hanew⟩, fun a b _ hlt => absurd hlt (hn ▸ Nat.not_lt_zero _)⟩
    · exact absurd h (Option.some_ne_none n).symm
  | cons c text ih =>
    rw [scanStop] at h
    split at h
    · next hanew =>
      have hn : 0 = n := Option.some.inj h
      exact ⟨⟨[], c :: text, rfl, hn, hanew⟩, fun a b _ hlt => absurd hlt (hn ▸ Nat.not_lt_zero _)⟩
    · next hnot =>
      obtain ⟨k, hk, hn⟩ := Option.map_eq_some_iff.mp h
      obtain ⟨⟨a, b, hsplit, hlength, hanew⟩, hnone⟩ := ih hk
      refine ⟨⟨c :: a, b, congrArg (c :: ·) hsplit, ?_, hanew⟩, fun a' b' hsplit' hlt => ?_⟩
      · rw [byteLength_cons, hlength]
        exact hn
      · cases a' with
        | nil =>
          have hb : c :: text = b' := hsplit'
          exact hb ▸ hnot
        | cons d a' =>
          obtain ⟨rfl, htext⟩ := List.cons.inj hsplit'
          rw [byteLength_cons] at hlt
          exact hnone a' b' htext (by omega)

theorem scanStop_none {text : List Char} (h : scanStop m text = none) (a b : List Char)
    (hsplit : text = a ++ b) : ¬Anew (scanAfter m a) b := by
  induction text generalizing m a with
  | nil =>
    obtain ⟨rfl, rfl⟩ := List.append_eq_nil_iff.mp hsplit.symm
    rw [scanStop] at h
    split at h
    · exact absurd h (Option.some_ne_none 0)
    · next hnot => exact hnot
  | cons c text ih =>
    rw [scanStop] at h
    split at h
    · exact absurd h (Option.some_ne_none 0)
    · next hnot =>
      cases a with
      | nil =>
        have hb : c :: text = b := hsplit
        exact hb ▸ hnot
      | cons d a =>
        obtain ⟨rfl, htext⟩ := List.cons.inj hsplit
        exact ih (Option.map_eq_none_iff.mp h) a htext

/-- Where a text may be cut: at the first place from the requested drop on where the scanner
reads anew, or at the drop itself if there is none. -/
def CutAt (text : List Char) (requested drop : Nat) : Prop :=
  ((∃ x y, text = x ++ y ∧ byteLength x = drop ∧ Stop x y) ∧ requested ≤ drop ∧
    ∀ x y, text = x ++ y → requested ≤ byteLength x → byteLength x < drop → ¬Stop x y) ∨
  (drop = requested ∧ ∀ x y, text = x ++ y → requested ≤ byteLength x → ¬Stop x y)

theorem stop_later {x a b : List Char} (h : x ++ c :: rest = a ++ b)
    (hlt : byteLength x < byteLength a) :
    ∃ t, rest = t ++ b ∧ (Stop a b ↔ Anew (scanAfter (scanNext (scanAfter .ground x) c) t) b) ∧
      byteLength a = byteLength x + c.utf8Size + byteLength t := by
  obtain ⟨t, hne, rfl, hrest⟩ := split_lt h hlt
  cases t with
  | nil => exact absurd rfl hne
  | cons d t =>
    obtain ⟨rfl, htail⟩ := List.cons.inj hrest
    refine ⟨t, htail, ?_, ?_⟩
    · rw [Stop, scanAfter_append]
      exact Iff.rfl
    · rw [byteLength_append, byteLength_cons, Nat.add_assoc]

theorem byte_esc (c : Char) (rest : List Char) :
    (bytesOf (x ++ c :: rest))[byteLength x]? = some 0x1b ↔ c = esc := by
  obtain ⟨byte, hbyte, hchar⟩ := head_byte c rest
  have hesc : byte = 0x1b ↔ c = esc := hchar esc (by decide)
  rw [← Nat.add_zero (byteLength x), bytes_at, hbyte, Option.some_inj]
  exact hesc

theorem dropLoop_spec {text before kept : List Char} (hbefore : text = before ++ kept)
    (hlong : ∀ x y, text = x ++ y → byteLength x < byteLength before →
      maxIncompleteAnsiBytes < byteLength text - byteLength x)
    {fuel : Nat} {x y : List Char} (htext : text = x ++ y) (hstop : Stop x y)
    (hx : byteLength x ≤ byteLength before) (hfuel : byteLength before < byteLength x + fuel) :
    ∃ drop, dropLoop text (byteLength before) fuel (byteLength x) = some drop ∧
      CutAt text (byteLength before) drop := by
  induction fuel generalizing x y with
  | zero => exact absurd hfuel (Nat.not_lt.mpr hx)
  | succ fuel ih =>
    rw [dropLoop]
    by_cases hlt : byteLength x < byteLength before
    · obtain ⟨t, hne, ht, hy⟩ := split_lt (htext.symm.trans hbefore) hlt
      cases t with
      | nil => exact absurd rfl hne
      | cons c t =>
        have hy : y = c :: (t ++ kept) := hy
        have hlength : byteLength before = byteLength x + c.utf8Size + byteLength t := by
          rw [ht, byteLength_append, byteLength_cons, Nat.add_assoc]
        generalize t ++ kept = rest at hy
        rw [hy] at htext hstop
        have hlater {a b : List Char} (hsplit : text = a ++ b)
            (hab : byteLength x < byteLength a) := stop_later (htext.symm.trans hsplit) hab
        have hinside : ¬byteLength (x ++ c :: rest) ≤ byteLength x := by
          have hpos := c.utf8Size_pos
          rw [byteLength_append, byteLength_cons]
          omega
        rw [if_pos hlt, htext, if_neg hinside]
        by_cases hesc : c = esc
        · rw [if_pos ((byte_esc x c rest).mpr hesc)]
          rw [hesc] at hstop ⊢
          rw [ansiSequenceEnd_eq x hstop, ← hesc, ← htext]
          cases hscan : scanStop (scanNext (scanAfter .ground x) c) rest with
          | none =>
            refine ⟨_, rfl, .inr ⟨if_pos (hlong x _ htext hlt), fun a b hsplit hge hstop' => ?_⟩⟩
            obtain ⟨u, hu, hiff, -⟩ := hlater hsplit (Nat.lt_of_lt_of_le hlt hge)
            exact scanStop_none hscan u b hu (hiff.mp hstop')
          | some k =>
            obtain ⟨⟨u, b, hu, hk, hanew⟩, hfirst⟩ := scanStop_some hscan
            have hsplit : text = (x ++ c :: u) ++ b := by
              rw [htext, hu, List.append_assoc]
              rfl
            have hone : c.utf8Size = 1 := hesc ▸ rfl
            have hfinish : byteLength (x ++ c :: u) = byteLength x + 1 + k := by
              rw [byteLength_append, byteLength_cons, hk, hone, Nat.add_assoc]
            have hstop' : Stop (x ++ c :: u) b := by
              rw [Stop, scanAfter_append]
              exact hanew
            show ∃ drop, (if byteLength x + 1 + k ≤ byteLength before then
              dropLoop text (byteLength before) fuel (byteLength x + 1 + k)
              else some (byteLength x + 1 + k)) = some drop ∧ CutAt text (byteLength before) drop
            rw [← hfinish]
            by_cases hle : byteLength (x ++ c :: u) ≤ byteLength before
            · rw [if_pos hle]
              exact ih hsplit hstop' hle (by omega)
            · rw [if_neg hle]
              refine ⟨_, rfl, .inl ⟨⟨_, b, hsplit, rfl, hstop'⟩, Nat.le_of_not_le hle,
                fun a' b' hsplit' hge hshort hstopped => ?_⟩⟩
              obtain ⟨v, hv, hiff, hlength'⟩ := hlater hsplit' (Nat.lt_of_lt_of_le hlt hge)
              exact hfirst v b' hv (by omega) (hiff.mp hstopped)
        · have hground : scanAfter .ground x = .ground :=
            hstop.elim id (fun hopen => absurd (Option.some.inj hopen.2.1) hesc)
          have hnext : byteLength (x ++ [c]) = byteLength x + c.utf8Size := by
            rw [byteLength_append, byteLength_cons, byteLength_nil, Nat.add_zero]
          have hpos := c.utf8Size_pos
          rw [if_neg (fun h => hesc ((byte_esc x c rest).mp h)), textFrom_append, ← htext]
          show ∃ drop, dropLoop text (byteLength before) fuel (byteLength x + c.utf8Size) =
            some drop ∧ CutAt text (byteLength before) drop
          rw [← hnext]
          refine ih (htext.trans (List.append_cons x c rest)) (.inl ?_) (by omega) (by omega)
          rw [scanAfter_append, hground]
          show coarse (if c = esc then .escape else .ground) = .ground
          rw [if_neg hesc]
          rfl
    · have heq : byteLength before = byteLength x := Nat.le_antisymm (Nat.le_of_not_lt hlt) hx
      rw [if_neg hlt]
      refine ⟨_, rfl, .inl ⟨⟨x, y, htext, heq.symm, hstop⟩, Nat.le_refl _,
        fun a b _ hge hshort => ?_⟩⟩
      exact absurd hge (Nat.not_le.mpr hshort)

theorem charBoundary_spec {text : List Char} {fuel offset : Nat} (hoffset : offset ≤ byteLength text)
    (hfuel : byteLength text ≤ offset + fuel) :
    ∃ before kept, text = before ++ kept ∧ byteLength before = charBoundary text fuel offset ∧
      offset ≤ byteLength before ∧
        ∀ x y, text = x ++ y → offset ≤ byteLength x → byteLength before ≤ byteLength x := by
  have hhere (offset : Nat) (rest : List Char) (h : textFrom offset text = some rest) :
      ∃ before kept, text = before ++ kept ∧ byteLength before = offset ∧
        offset ≤ byteLength before ∧
          ∀ x y, text = x ++ y → offset ≤ byteLength x → byteLength before ≤ byteLength x := by
    obtain ⟨before, hsplit, hlength⟩ := textFrom_some h
    exact ⟨before, rest, hsplit, hlength, Nat.le_of_eq hlength.symm,
      fun x y _ hx => Nat.le_trans (Nat.le_of_eq hlength) hx⟩
  have hend (offset : Nat) (heq : offset = byteLength text) : textFrom offset text = some [] := by
    have hwhole := textFrom_append text []
    rw [List.append_nil] at hwhole
    exact heq ▸ hwhole
  induction fuel generalizing offset with
  | zero => exact hhere _ [] (hend _ (Nat.le_antisymm hoffset hfuel))
  | succ fuel ih =>
    rw [charBoundary]
    by_cases hlt : offset < byteLength text
    · cases hfrom : textFrom offset text with
      | some rest =>
        rw [if_neg (fun h => Bool.false_ne_true h.2)]
        exact hhere _ rest hfrom
      | none =>
        rw [if_pos ⟨hlt, rfl⟩]
        obtain ⟨before, kept, hsplit, hlength, hge, hleast⟩ :=
          ih (Nat.succ_le_of_lt hlt) (by omega)
        refine ⟨before, kept, hsplit, hlength, by omega, fun x y hxy hx => hleast x y hxy ?_⟩
        -- no piece of the text ends at the offset itself
        refine Nat.lt_of_le_of_ne hx (fun heq => ?_)
        rw [hxy, heq, textFrom_append] at hfrom
        exact Option.some_ne_none y hfrom
    · rw [if_neg (fun h => hlt h.1)]
      exact hhere _ [] (hend _ (Nat.le_antisymm hoffset (Nat.le_of_not_lt hlt)))

/-- What is left of a text over the limit, when the limit is at least what an open escape may
hold: `before` is what the limit asks to drop. -/
theorem truncate_spec {text : List Char} {maxBytes : Nat} (hmax : maxIncompleteAnsiBytes ≤ maxBytes)
    (hlong : maxBytes < byteLength text) :
    ∃ before kept x y, text = before ++ kept ∧ byteLength kept ≤ maxBytes ∧
      (∀ a b, text = a ++ b → byteLength b ≤ maxBytes → byteLength before ≤ byteLength a) ∧
      text = x ++ y ∧ truncateUsageScanBuffer text maxBytes = some y ∧
      CutAt text (byteLength before) (byteLength x) := by
  obtain ⟨before, kept, hsplit, hlength, hge, hleast⟩ :=
    @charBoundary_spec text maxBytes (byteLength text - maxBytes) (Nat.sub_le _ _) (by omega)
  have hwhole {x y : List Char} (h : text = x ++ y) : byteLength text = byteLength x + byteLength y := by
    rw [h, byteLength_append]
  have hkept := hwhole hsplit
  have hshort (x y : List Char) (hxy : text = x ++ y) (hx : byteLength x < byteLength before) :
      maxIncompleteAnsiBytes < byteLength text - byteLength x := by
    refine Nat.lt_of_not_le (fun hle => ?_)
    have hbefore := hleast x y hxy (by omega)
    omega
  obtain ⟨drop, hdrop, hcut⟩ := dropLoop_spec hsplit hshort (List.nil_append text).symm (.inl rfl) (Nat.zero_le _)
    (Nat.lt_of_lt_of_eq (Nat.lt_succ_self _) (Nat.zero_add _).symm)
  -- the loop ends between two characters
  have hxy : ∃ x y, text = x ++ y ∧ byteLength x = drop := by
    obtain ⟨⟨x, y, hxy, hx, -⟩, -⟩ | ⟨heq, -⟩ := hcut
    · exact ⟨x, y, hxy, hx⟩
    · exact ⟨before, kept, hsplit, heq.symm⟩
  obtain ⟨x, y, hxy, hx⟩ := hxy
  refine ⟨before, kept, x, y, hsplit, by omega, fun a b hab hb => ?_, hxy, ?_, ?_⟩
  · have halength := hwhole hab
    exact hleast a b hab (by omega)
  · have hpos : maxBytes ≠ 0 := Nat.ne_of_gt (Nat.lt_of_lt_of_le (by decide) hmax)
    have hoffset : safeAnsiDropOffset text (byteLength before) = some drop := hdrop
    rw [truncateUsageScanBuffer, if_neg (Nat.not_le.mpr hlong), if_neg hpos, requestedDrop,
      ← hlength, hoffset, Option.bind_some, ← hx, hxy, textFrom_append]
  · rw [hx]
    exact hcut

end Orkworksd.Peon.UsageScan
