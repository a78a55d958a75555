import Mathlib.Data.List.Basic
import Mathlib.Data.List.Infix

/- UTF-8 read one byte at a time. `verdict` judges a buffer that holds the beginning
   of one character, as a validating decoder does: complete, still incomplete, or
   invalid. `lossy` replaces every maximal ill-formed part by U+FFFD. Texts are kept
   as their UTF-8 bytes, so decoding a well-formed text gives it back unchanged. -/
namespace Orkworksd.Lib.Utf8
open List

/-- `0b10xxxxxx`. -/
def isContinuation (b : UInt8) : Bool := 0x80 ≤ b && b ≤ 0xbf

/-- The first byte of a character of more than one byte. -/
def isLead (b : UInt8) : Bool := 0xc2 ≤ b && b ≤ 0xf4

/-- The number of bytes of the character a lead byte begins. -/
def width (lead : UInt8) : Nat :=
  if lead < 0xe0 then 2 else if lead < 0xf0 then 3 else 4

/-- Whether `b` may follow the lead byte: no overlong form, no surrogate, nothing
above U+10FFFF. -/
def secondOk (lead b : UInt8) : Bool :=
  if lead = 0xe0 then 0xa0 ≤ b && b ≤ 0xbf
  else if lead = 0xed then 0x80 ≤ b && b ≤ 0x9f
  else if lead = 0xf0 then 0x90 ≤ b && b ≤ 0xbf
  else if lead = 0xf4 then 0x80 ≤ b && b ≤ 0x8f
  else isContinuation b

inductive Verdict where
  | complete | incomplete | invalid
  deriving DecidableEq, Repr

/-- The verdict on a buffer that begins with a lead byte. -/
def verdict : List UInt8 → Verdict
  | [] => .incomplete
  | lead :: rest =>
    match rest with
    | [] => .incomplete
    | second :: more =>
      if !secondOk lead second || !more.all isContinuation then .invalid
      else if rest.length + 1 < width lead then .incomplete
      else .complete

/-- U+FFFD. -/
def replacement : List UInt8 := [0xef, 0xbf, 0xbd]

/-- A decoder's reading of one byte: what it puts out and what it keeps. -/
@[ext]
structure Reading where
  out : List UInt8
  pending : List UInt8
  deriving DecidableEq

/-- A byte read with nothing pending. -/
def start (b : UInt8) : Reading :=
  if b < 0x80 then ⟨[b], []⟩
  else if isLead b then ⟨[], [b]⟩
  else ⟨replacement, []⟩

/-- A byte read with the beginning of a character pending. A byte that cannot
continue it is read again from the start. -/
def feed (pending : List UInt8) (b : UInt8) : Reading :=
  if pending = [] then start b
  else match verdict (pending ++ [b]) with
    | .complete => ⟨pending ++ [b], []⟩
    | .incomplete => ⟨[], pending ++ [b]⟩
    | .invalid => ⟨replacement ++ (start b).out, (start b).pending⟩

/-- What a decoder that holds `pending` puts out for the bytes, and what it then
holds. -/
def decode : List UInt8 → List UInt8 → Reading
  | pending, [] => ⟨[], pending⟩
  | pending, b :: bytes =>
    let first := feed pending b
    let rest := decode first.pending bytes
    ⟨first.out ++ rest.out, rest.pending⟩

/-- The end of the input makes a pending character ill-formed. -/
def flush (pending : List UInt8) : List UInt8 := if pending = [] then [] else replacement

/-- `String::from_utf8_lossy`. -/
def lossy (bytes : List UInt8) : List UInt8 :=
  (decode [] bytes).out ++ flush (decode [] bytes).pending

/-- Decoding a text gives it back: the bytes are well-formed UTF-8. -/
def WellFormed (bytes : List UInt8) : Prop := decode [] bytes = ⟨bytes, []⟩

theorem decode_nil (pending : List UInt8) : decode pending [] = ⟨[], pending⟩ := rfl

theorem decode_cons (pending : List UInt8) (b : UInt8) (bytes : List UInt8) :
    decode pending (b :: bytes) =
      ⟨(feed pending b).out ++ (decode (feed pending b).pending bytes).out,
        (decode (feed pending b).pending bytes).pending⟩ := rfl

theorem decode_append (pending x y : List UInt8) :
    decode pending (x ++ y) =
      ⟨(decode pending x).out ++ (decode (decode pending x).pending y).out,
        (decode (decode pending x).pending y).pending⟩ := by
  induction x generalizing pending with
  | nil => simp [decode_nil]
  | cons b x ih =>
    rw [cons_append, decode_cons, decode_cons, ih]
    simp [append_assoc]

theorem lossy_of_wellFormed {bytes : List UInt8} (h : WellFormed bytes) : lossy bytes = bytes := by
  unfold lossy
  rw [h]
  simp [flush]

theorem WellFormed.append {x y : List UInt8} (hx : WellFormed x) (hy : WellFormed y) :
    WellFormed (x ++ y) := by
  unfold WellFormed
  rw [decode_append, hx, hy]

/-! ## Where a byte string can be cut -/

/-- A pending buffer is the beginning of one character: a lead byte and the bytes
that continue it, not all of them yet. -/
def Pending (pending : List UInt8) : Prop :=
  pending = [] ∨ ∃ lead rest, pending = lead :: rest ∧ isLead lead = true ∧
    verdict pending = .incomplete

theorem pending_start (b : UInt8) : Pending (start b).pending := by
  unfold start
  split
  · exact .inl rfl
  · split
    · rename_i hlead
      exact .inr ⟨b, [], rfl, hlead, rfl⟩
    · exact .inl rfl

variable {pending : List UInt8}

theorem pending_feed (h : Pending pending) (b : UInt8) : Pending (feed pending b).pending := by
  unfold feed
  split
  · exact pending_start b
  · rename_i hne
    split
    · exact .inl rfl
    · rename_i hverdict
      rcases h with rfl | ⟨lead, rest, rfl, hlead, -⟩
      · exact absurd rfl hne
      · exact .inr ⟨lead, rest ++ [b], rfl, hlead, hverdict⟩
    · exact pending_start b

theorem pending_decode (h : Pending pending) (bytes : List UInt8) :
    Pending (decode pending bytes).pending := by
  induction bytes generalizing pending with
  | nil => exact h
  | cons b bytes ih => exact ih (pending_feed h b)

variable {b : UInt8} {rest : List UInt8}

theorem verdict_init {lead : UInt8} (h : verdict (lead :: (rest ++ [b])) = .incomplete) :
    verdict (lead :: rest) = .incomplete := by
  cases rest with
  | nil => rfl
  | cons second more =>
    simp only [verdict, cons_append, all_append, length_cons, length_append, length_nil] at h ⊢
    split at h
    · cases h
    · rename_i hok
      split at h
      · rename_i hlength
        rw [if_neg (by simp at hok ⊢; exact ⟨hok.1, hok.2.1⟩), if_pos (by omega)]
      · cases h

theorem verdict_of_not_continuation (hne : pending ≠ []) (hb : isContinuation b = false) :
    verdict (pending ++ [b]) = .invalid := by
  have hsecond : ∀ lead, secondOk lead b = false := by
    intro lead
    unfold secondOk
    unfold isContinuation at hb
    split
    · grind
    · split
      · grind
      · split
        · grind
        · split
          · grind
          · exact hb
  cases pending with
  | nil => exact absurd rfl hne
  | cons lead rest =>
    cases rest with
    | nil => simp [verdict, hsecond]
    | cons second more => simp [verdict, hb]

theorem feed_of_not_continuation (pending : List UInt8) (hb : isContinuation b = false) :
    feed pending b = ⟨flush pending ++ (start b).out, (start b).pending⟩ := by
  unfold feed flush
  split
  · simp
  · rename_i hne
    rw [verdict_of_not_continuation hne hb]

theorem lossy_append {x y : List UInt8}
    (h : (decode [] x).pending = [] ∨ ∀ b rest, y = b :: rest → isContinuation b = false) :
    lossy (x ++ y) = lossy x ++ lossy y := by
  unfold lossy
  rw [decode_append]
  rcases h with h | h
  · simp [h, flush, append_assoc]
  · cases y with
    | nil =>
      rw [decode_nil, decode_nil]
      simp only [append_nil, show flush [] = [] from rfl]
    | cons b rest =>
      have hb := h b rest rfl
      rw [decode_cons, decode_cons, feed_of_not_continuation _ hb]
      simp [feed, append_assoc]

variable (bytes : List UInt8)

theorem pending_suffix : (decode pending bytes).pending <:+ pending ++ bytes := by
  induction bytes generalizing pending with
  | nil => simp [decode_nil]
  | cons b bytes ih =>
    rw [decode_cons]
    have hfirst : (feed pending b).pending <:+ pending ++ [b] := by
      have hstart : (start b).pending <:+ pending ++ [b] := by
        unfold start
        split
        · exact nil_suffix
        · split
          · exact suffix_append pending [b]
          · exact nil_suffix
      unfold feed
      split
      · exact hstart
      · split
        · exact nil_suffix
        · exact suffix_refl _
        · exact hstart
    refine (@ih (feed pending b).pending).trans ?_
    obtain ⟨before, hbefore⟩ := hfirst
    refine ⟨before, ?_⟩
    rw [← append_assoc, hbefore]
    simp

/-! ## Well-formed output -/

theorem decode_pending (h : Pending pending) : decode [] pending = ⟨[], pending⟩ := by
  rcases h with rfl | ⟨lead, rest, rfl, hlead, hverdict⟩
  · rfl
  · induction rest using List.reverseRecOn with
    | nil =>
      have hascii : ¬ lead < 0x80 := by
        unfold isLead at hlead
        grind
      simp [decode, feed, start, hascii, hlead]
    | append_singleton rest b ih =>
      rw [← cons_append, decode_append, ih (verdict_init hverdict)]
      rw [← cons_append] at hverdict
      rw [decode_cons, decode_nil, feed, if_neg (by simp), hverdict]
      simp

theorem wellFormed_complete (h : Pending pending) (hne : pending ≠ [])
    (hverdict : verdict (pending ++ [b]) = .complete) : WellFormed (pending ++ [b]) := by
  unfold WellFormed
  rw [decode_append, decode_pending h, decode_cons, decode_nil, feed, if_neg hne, hverdict]
  simp

theorem wellFormed_nil : WellFormed [] := rfl

theorem wellFormed_ascii (h : b < 0x80) : WellFormed [b] := by
  simp [WellFormed, decode, feed, start, h]

theorem wellFormed_replacement : WellFormed replacement := by
  unfold WellFormed
  decide

theorem wellFormed_start (b : UInt8) : WellFormed (start b).out := by
  unfold start
  split
  · next h => exact wellFormed_ascii h
  · split
    · exact wellFormed_nil
    · exact wellFormed_replacement

theorem wellFormed_feed (h : Pending pending) (b : UInt8) : WellFormed (feed pending b).out := by
  unfold feed
  split
  · exact wellFormed_start b
  · next hne =>
    split
    · next hverdict => exact wellFormed_complete h hne hverdict
    · exact wellFormed_nil
    · exact wellFormed_replacement.append (wellFormed_start b)

theorem wellFormed_decode (h : Pending pending) (bytes : List UInt8) :
    WellFormed (decode pending bytes).out := by
  induction bytes generalizing pending with
  | nil => exact wellFormed_nil
  | cons b bytes ih => exact (wellFormed_feed h b).append (ih (pending_feed h b))

theorem wellFormed_lossy : WellFormed (lossy bytes) := by
  refine (wellFormed_decode (.inl rfl) bytes).append ?_
  unfold flush
  split
  · exact wellFormed_nil
  · exact wellFormed_replacement

/-- An incomplete character that U+FFFD begins with is completed by the rest of U+FFFD. -/
theorem not_replacement_of_invalid {out bytes : List UInt8} (h : Pending pending)
    (hne : pending ≠ []) (hverdict : verdict (pending ++ [b]) = .invalid) :
    replacement ++ out ≠ pending ++ b :: bytes := by
  intro heq
  rcases h with rfl | ⟨lead, rest, rfl, hlead, hincomplete⟩
  · exact hne rfl
  · simp only [replacement, cons_append, nil_append, List.cons.injEq] at heq
    obtain ⟨rfl, heq⟩ := heq
    cases rest with
    | nil =>
      obtain ⟨rfl, -⟩ := List.cons.inj heq
      exact absurd hverdict (by decide)
    | cons second more =>
      obtain ⟨rfl, heq⟩ := List.cons.inj heq
      cases more with
      | nil =>
        obtain ⟨rfl, -⟩ := List.cons.inj (List.cons.inj heq).2
        exact absurd hverdict (by decide)
      | cons third more =>
        -- three bytes are a whole character after this lead
        unfold verdict at hincomplete
        dsimp only at hincomplete
        split at hincomplete
        · cases hincomplete
        · simp [width] at hincomplete

/-! ## Validation -/

/-- The outcome of `str::from_utf8`: an error says how many bytes before it are a text,
and whether it is only that the input ends inside a character. -/
inductive Validity where
  | valid
  | incomplete (validUpTo : Nat)
  | invalid (validUpTo : Nat)
  deriving DecidableEq, Repr

/-- The validation from a character's beginning on, `length` bytes into the text. -/
def validateFrom : Nat → List UInt8 → List UInt8 → Validity
  | length, pending, [] => if pending = [] then .valid else .incomplete length
  | length, pending, b :: bytes =>
    if pending = [] then
      if b < 0x80 then validateFrom (length + 1) [] bytes
      else if isLead b then validateFrom length [b] bytes
      else .invalid length
    else match verdict (pending ++ [b]) with
      | .complete => validateFrom (length + (pending.length + 1)) [] bytes
      | .incomplete => validateFrom length (pending ++ [b]) bytes
      | .invalid => .invalid length

/-- `str::from_utf8`. -/
def validate (bytes : List UInt8) : Validity := validateFrom 0 [] bytes

/-- Up to the first error the bytes are decoded as they are: all of them in a text, and
the ones before the last character where the input ends inside it. -/
theorem decode_of_validateFrom {length : Nat} {bytes : List UInt8}
    (h : ∀ n, validateFrom length pending bytes ≠ .invalid n) :
    (validateFrom length pending bytes = .valid → decode pending bytes = ⟨pending ++ bytes, []⟩) ∧
    ∀ n, validateFrom length pending bytes = .incomplete n →
      length ≤ n ∧ decode pending bytes =
        ⟨(pending ++ bytes).take (n - length), (pending ++ bytes).drop (n - length)⟩ := by
  induction bytes generalizing length pending with
  | nil =>
    by_cases hempty : pending = []
    · subst hempty
      exact ⟨fun _ => rfl, fun n hn => Validity.noConfusion hn⟩
    · rw [validateFrom, if_neg hempty]
      refine ⟨fun hvalid => Validity.noConfusion hvalid, fun n hn => ?_⟩
      obtain rfl := Validity.incomplete.inj hn
      refine ⟨Nat.le_refl length, ?_⟩
      rw [Nat.sub_self, take_zero, drop_zero, append_nil, decode_nil]
  | cons b bytes ih =>
    rw [decode_cons]
    by_cases hempty : pending = []
    · subst hempty
      rw [validateFrom, if_pos rfl] at h ⊢
      rw [feed, if_pos rfl, start]
      by_cases hascii : b < 0x80
      · simp only [if_pos hascii] at h ⊢
        refine ⟨fun hvalid => ?_, fun n hn => ?_⟩
        · rw [(ih h).1 hvalid]
          rfl
        · obtain ⟨hle, hrest⟩ := (ih h).2 n hn
          have hsucc : n - length = n - (length + 1) + 1 := by omega
          rw [hrest, hsucc]
          exact ⟨by omega, rfl⟩
      · by_cases hlead : isLead b = true
        · simp only [if_neg hascii, if_pos hlead] at h ⊢
          exact ih h
        · simp only [if_neg hascii, if_neg hlead] at h
          exact absurd rfl (h length)
    · rw [validateFrom, if_neg hempty] at h ⊢
      rw [feed, if_neg hempty]
      cases hverdict : verdict (pending ++ [b]) with
      | complete =>
        simp only [hverdict] at h ⊢
        have hsplit : pending ++ b :: bytes = (pending ++ [b]) ++ bytes := by simp
        refine ⟨fun hvalid => ?_, fun n hn => ?_⟩
        · rw [(ih h).1 hvalid, hsplit]
          rfl
        · obtain ⟨hle, hrest⟩ := (ih h).2 n hn
          have hlength : n - length = (pending ++ [b]).length + (n - (length + (pending.length + 1))) := by
            rw [length_append, length_singleton]
            omega
          rw [hrest, hlength, hsplit, take_length_add_append, drop_length_add_append]
          exact ⟨by omega, rfl⟩
      | incomplete =>
        simp only [hverdict] at h ⊢
        have hsplit : pending ++ b :: bytes = (pending ++ [b]) ++ bytes := by simp
        rw [hsplit]
        exact ih h
      | invalid =>
        simp only [hverdict] at h
        exact absurd rfl (h length)

/-! ## Cutting a text inside a character -/

/-- The number of characters of a text: the bytes that continue none. -/
def characters (text : List UInt8) : Nat := text.countP (fun b => !isContinuation b)

theorem characters_append (x y : List UInt8) :
    characters (x ++ y) = characters x + characters y := countP_append

/-- The first of the bytes to come continues the pending character. -/
def continued (pending : List UInt8) : List UInt8 → Bool
  | [] => false
  | b :: _ => pending != [] && verdict (pending ++ [b]) != .invalid

theorem isContinuation_of_continued (h : continued pending (b :: rest) = true) :
    isContinuation b = true := by
  simp only [continued, Bool.and_eq_true, bne_iff_ne, ne_eq] at h
  by_contra hnot
  exact h.2 (verdict_of_not_continuation h.1 (by simpa using hnot))

theorem lossy_pending (h : Pending pending) (bytes : List UInt8) : lossy (pending ++ bytes) =
      (decode pending bytes).out ++ flush (decode pending bytes).pending := by
  rw [lossy, decode_append, decode_pending h]
  rfl

theorem lossy_continuation (h : isContinuation b = true) (bytes : List UInt8) :
    lossy (b :: bytes) = replacement ++ lossy bytes := by
  have hstart : start b = ⟨replacement, []⟩ := by
    unfold isContinuation at h
    have hascii : ¬ b < 0x80 := by grind
    have hlead : ¬ isLead b = true := by
      unfold isLead
      grind
    rw [start, if_neg hascii, if_neg hlead]
  rw [lossy, decode_cons, feed, if_pos rfl, hstart]
  exact append_assoc _ _ _

/-- Where the next byte does not continue the pending character, cutting before it
changes nothing. -/
theorem lossy_cut (h : Pending pending) (hrest : continued pending rest = false) :
    lossy (pending ++ rest) = flush pending ++ lossy rest := by
  by_cases hempty : pending = []
  · subst hempty
    rfl
  · cases rest with
    | nil =>
      rw [lossy_pending h, decode_nil]
      exact (append_nil _).symm
    | cons b rest =>
      have hinvalid : verdict (pending ++ [b]) = .invalid := by
        simpa [continued, hempty] using hrest
      have hfeed : feed pending b = ⟨replacement ++ (start b).out, (start b).pending⟩ := by
        rw [feed, if_neg hempty, hinvalid]
      have hflush : flush pending = replacement := if_neg hempty
      rw [lossy_pending h, decode_cons, hfeed, lossy, decode_cons, feed, if_pos rfl, hflush]
      simp only [append_assoc]

theorem characters_of_verdict (h : verdict pending ≠ .invalid) : characters pending ≤ 1 := by
  cases pending with
  | nil => exact Nat.zero_le 1
  | cons lead rest =>
    cases rest with
    | nil => exact countP_le_length
    | cons second more =>
      have hsecond : secondOk lead second = true ∧ more.all isContinuation = true := by
        simp only [verdict] at h
        split at h
        · exact absurd rfl h
        · rename_i hok
          simpa using hok
      have hcontinues : isContinuation second = true := by
        have hok := hsecond.1
        unfold secondOk at hok
        unfold isContinuation at hok ⊢
        grind
      have hmore : more.countP (fun b => !isContinuation b) = 0 := by
        rw [countP_eq_zero]
        intro b hb
        simp [all_eq_true.mp hsecond.2 b hb]
      rw [characters, countP_cons, countP_cons, hmore, hcontinues]
      simp only [Bool.not_true, Bool.false_eq_true, if_false, Nat.zero_add]
      split
      · exact Nat.le_refl 1
      · exact Nat.zero_le 1

theorem characters_cut (h : Pending pending) (hrest : continued pending rest = true) :
    characters (lossy (pending ++ rest)) < characters (flush pending) + characters (lossy rest) := by
  induction rest generalizing pending with
  | nil => cases hrest
  | cons b rest ih =>
    have hcontinuation := isContinuation_of_continued hrest
    simp only [continued, Bool.and_eq_true, bne_iff_ne, ne_eq] at hrest
    obtain ⟨hempty, hverdict⟩ := hrest
    have hlast : characters (flush pending) + characters (lossy (b :: rest)) =
        2 + characters (lossy rest) := by
      rw [lossy_continuation hcontinuation, characters_append, flush, if_neg hempty, ← Nat.add_assoc]
      rfl
    rw [hlast]
    cases hnext : verdict (pending ++ [b]) with
    | complete =>
      have hone : characters (pending ++ [b]) ≤ 1 := characters_of_verdict hverdict
      have hjoined : lossy (pending ++ b :: rest) = (pending ++ [b]) ++ lossy rest := by
        rw [lossy_pending h, decode_cons, feed, if_neg hempty, hnext, lossy]
        simp only [append_assoc]
      rw [hjoined, characters_append]
      omega
    | incomplete =>
      have hfeed : feed pending b = ⟨[], pending ++ [b]⟩ := by
        rw [feed, if_neg hempty, hnext]
      have hpending : Pending (pending ++ [b]) := by
        have hkept := pending_feed h b
        rwa [hfeed] at hkept
      have hflush : characters (flush (pending ++ [b])) = 1 := by
        rw [flush, if_neg (by simp)]
        rfl
      have hsplit : pending ++ b :: rest = (pending ++ [b]) ++ rest := by simp
      rw [hsplit]
      by_cases hmore : continued (pending ++ [b]) rest = true
      · have hlt := ih hpending hmore
        omega
      · rw [lossy_cut hpending (by simpa using hmore), characters_append]
        omega
    | invalid => exact absurd hnext hverdict

section Rewrite

variable {f : UInt8 → List UInt8} (other : ∀ b, ¬ b < 0x80 → f b = [b])
include other

theorem rewrite_continuation (hne : pending ≠ [])
    (hvalid : verdict (pending ++ [b]) ≠ .invalid) : f b = [b] := by
  refine other b (fun hascii => hvalid (verdict_of_not_continuation hne ?_))
  unfold isContinuation
  grind

variable (ascii : ∀ b, b < 0x80 → WellFormed (f b))
include ascii

theorem decode_flatMap {bytes : List UInt8} (hpending : Pending pending)
    (hdecode : decode pending bytes = ⟨pending ++ bytes, []⟩) :
    decode pending (bytes.flatMap f) = ⟨pending ++ bytes.flatMap f, []⟩ := by
  induction bytes generalizing pending with
  | nil =>
    exact hdecode
  | cons b bytes ih =>
    rw [decode_cons, Reading.mk.injEq] at hdecode
    obtain ⟨hout, hend⟩ := hdecode
    rw [flatMap_cons]
    have hnext := pending_feed hpending b
    by_cases hempty : pending = []
    · subst hempty
      rw [feed, if_pos rfl] at hout hend hnext
      by_cases hascii : b < 0x80
      · rw [start, if_pos hascii] at hout hend
        have hrest := @ih [] (.inl rfl) (by
          rw [Reading.ext_iff]
          exact ⟨List.cons.inj hout |>.2, hend⟩)
        rw [decode_append, ascii b hascii, hrest]
        simp
      · by_cases hlead : isLead b = true
        · rw [start, if_neg hascii, if_pos hlead] at hout hend hnext
          have hrest := @ih [b] hnext (by
            rw [Reading.ext_iff]
            exact ⟨hout, hend⟩)
          rw [other b hascii, singleton_append, decode_cons, feed, if_pos rfl, start,
            if_neg hascii, if_pos hlead, hrest]
          simp
        · exfalso
          rw [start, if_neg hascii, if_neg hlead] at hout
          obtain ⟨rfl, -⟩ := List.cons.inj hout
          exact hlead (by decide)
    · cases hverdict : verdict (pending ++ [b]) with
      | complete =>
        rw [feed, if_neg hempty, hverdict] at hout hend
        have hrest := @ih [] (.inl rfl) (by
          rw [Reading.ext_iff]
          rw [append_assoc] at hout
          exact ⟨(List.cons.inj (append_cancel_left hout)).2, hend⟩)
        rw [rewrite_continuation other hempty (by simp [hverdict]), singleton_append, decode_cons, feed,
          if_neg hempty, hverdict, hrest]
        simp
      | incomplete =>
        rw [feed, if_neg hempty, hverdict] at hout hend hnext
        have hrest := @ih (pending ++ [b]) hnext (by
          rw [Reading.ext_iff, append_assoc]
          exact ⟨hout, hend⟩)
        rw [rewrite_continuation other hempty (by simp [hverdict]), singleton_append, decode_cons, feed,
          if_neg hempty, hverdict, hrest]
        simp
      | invalid =>
        exfalso
        rw [feed, if_neg hempty, hverdict, append_assoc] at hout
        exact not_replacement_of_invalid hpending hempty hverdict hout

theorem WellFormed.flatMap {text : List UInt8} (h : WellFormed text) :
    WellFormed (text.flatMap f) := decode_flatMap other ascii (.inl rfl) h

end Rewrite

end Orkworksd.Lib.Utf8
