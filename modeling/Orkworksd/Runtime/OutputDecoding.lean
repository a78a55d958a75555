import Orkworksd.Lib.Utf8

/- The decoding of a terminal's output chunk by chunk (`decode_output_chunk` of
   `session_runtime.rs`): a character cut by the end of a chunk is carried over to the next
   one. Texts are kept as their UTF-8 bytes.

   What is proved:
     1. `decodeOutputChunk_spec`: what a call gives out and keeps, in terms of the decoder.
     2. `decodeOutput_eq_iff`: the calls decode the stream as one call on the whole of it
        does, exactly when no call that meets an ill-formed byte also ends inside a
        character that the stream goes on with.
     3. `decodeOutput_cut`: a split for which they do not. -/
namespace Orkworksd.Runtime
open List

open Orkworksd.Lib

namespace OutputDecoding

abbrev Bytes := List UInt8

/-- `decode_output_chunk`: the text and the bytes carried over. -/
def decodeOutputChunk (pending data : Bytes) : Bytes × Bytes :=
  let bytes := pending ++ data
  match Utf8.validate bytes with
  | .valid => (bytes, [])
  | .incomplete validLen => (Utf8.lossy (bytes.take validLen), bytes.drop validLen)
  | .invalid _ => (Utf8.lossy bytes, [])

/-- The calls for the chunks of a stream: the texts, one after the other, and the bytes
carried over in the end. -/
def decodeOutput : Bytes → List Bytes → Bytes × Bytes
  | pending, [] => ([], pending)
  | pending, data :: chunks =>
    let first := decodeOutputChunk pending data
    let rest := decodeOutput first.2 chunks
    (first.1 ++ rest.1, rest.2)

/-- The bytes of a call hold an ill-formed part. -/
def Malformed (bytes : Bytes) : Prop := ∃ n, Utf8.validate bytes = .invalid n

/-- The bytes of a call hold an ill-formed part, and end inside a character that the
rest of the stream goes on with. -/
def Broken (pending data rest : Bytes) : Prop :=
  Malformed (pending ++ data) ∧
    Utf8.continued (Utf8.decode [] (pending ++ data)).pending rest = true

/-- No call for the chunks is broken. -/
def Sound (pending : Bytes) (chunks : List Bytes) : Prop :=
  ∀ before data after, chunks = before ++ data :: after →
    ¬ Broken (decodeOutput pending before).2 data after.flatten

/-! ## One call -/

variable {pending : Bytes}

theorem decode_resume (h : Utf8.Pending pending) (data : Bytes) :
    Utf8.decode [] (pending ++ data) = Utf8.decode pending data := by
  rw [Utf8.decode_append, Utf8.decode_pending h]
  rfl

variable {data : Bytes}

theorem decodeOutputChunk_spec (h : Utf8.Pending pending)
    (hformed : ¬ Malformed (pending ++ data)) : decodeOutputChunk pending data =
      ((Utf8.decode pending data).out, (Utf8.decode pending data).pending) := by
  have hvalid : ∀ n, Utf8.validate (pending ++ data) ≠ .invalid n := fun n hn => hformed ⟨n, hn⟩
  have hdecode := Utf8.decode_of_validateFrom hvalid
  rw [← decode_resume h]
  cases hread : Utf8.validate (pending ++ data) with
  | valid =>
    rw [hdecode.1 hread, decodeOutputChunk]
    simp only [hread]
    rfl
  | incomplete validLen =>
    have hcut := (hdecode.2 validLen hread).2
    have hwell := Utf8.wellFormed_decode (.inl rfl) (pending ++ data)
    rw [Nat.sub_zero, nil_append] at hcut
    rw [hcut] at hwell ⊢
    rw [decodeOutputChunk]
    simp only [hread]
    rw [Utf8.lossy_of_wellFormed hwell]
  | invalid validLen => exact absurd hread (hvalid validLen)

theorem decodeOutputChunk_malformed (h : Malformed (pending ++ data)) :
    decodeOutputChunk pending data = (Utf8.lossy (pending ++ data), []) := by
  obtain ⟨n, hn⟩ := h
  rw [decodeOutputChunk]
  simp only [hn]

theorem pending_decodeOutputChunk (h : Utf8.Pending pending) (data : Bytes) :
    Utf8.Pending (decodeOutputChunk pending data).2 := by
  by_cases hformed : Malformed (pending ++ data)
  · rw [decodeOutputChunk_malformed hformed]
    exact .inl rfl
  · rw [decodeOutputChunk_spec h hformed]
    exact Utf8.pending_decode h data

/-! ## The calls for a stream -/

theorem decodeOutput_cons (pending data : Bytes) (chunks : List Bytes) :
    decodeOutput pending (data :: chunks) =
      ((decodeOutputChunk pending data).1 ++
          (decodeOutput (decodeOutputChunk pending data).2 chunks).1,
        (decodeOutput (decodeOutputChunk pending data).2 chunks).2) := rfl

theorem sound_cons {chunks : List Bytes} : Sound pending (data :: chunks) ↔
      ¬ Broken pending data chunks.flatten ∧ Sound (decodeOutputChunk pending data).2 chunks := by
  constructor
  · intro h
    refine ⟨h [] data chunks rfl, fun before next after hchunks => ?_⟩
    exact h (data :: before) next after (by rw [hchunks]; rfl)
  · intro h before next after hchunks
    cases before with
    | nil =>
      obtain ⟨rfl, rfl⟩ := List.cons.inj hchunks
      exact h.1
    | cons first before =>
      obtain ⟨rfl, hrest⟩ := List.cons.inj hchunks
      exact h.2 before next after hrest

/-- What the calls put out, with the bytes carried over in the end decoded too. -/
def shown (pending : Bytes) (chunks : List Bytes) : Bytes :=
  (decodeOutput pending chunks).1 ++ Utf8.lossy (decodeOutput pending chunks).2

theorem shown_cons (pending data : Bytes) (chunks : List Bytes) :
    shown pending (data :: chunks) =
      (decodeOutputChunk pending data).1 ++ shown (decodeOutputChunk pending data).2 chunks := by
  rw [shown, decodeOutput_cons]
  exact append_assoc _ _ _

/-- Sound calls decode the stream as one; a broken call adds a character that no later
call takes back. -/
theorem shown_spec (h : Utf8.Pending pending) (chunks : List Bytes) :
    (Sound pending chunks → shown pending chunks = Utf8.lossy (pending ++ chunks.flatten)) ∧
    (¬ Sound pending chunks →
      Utf8.characters (Utf8.lossy (pending ++ chunks.flatten)) <
        Utf8.characters (shown pending chunks)) := by
  induction chunks generalizing pending with
  | nil =>
    refine ⟨fun _ => ?_, fun hnot => absurd ?_ hnot⟩
    · exact congrArg Utf8.lossy (append_nil pending).symm
    · intro before data after hchunks
      exact absurd hchunks (by simp)
  | cons data chunks ih =>
    obtain ⟨heq, hlt⟩ := ih (pending_decodeOutputChunk h data)
    rw [sound_cons, shown_cons, flatten_cons, ← append_assoc]
    by_cases hformed : Malformed (pending ++ data)
    · -- The text of the call is closed, whatever it ends with.
      rw [decodeOutputChunk_malformed hformed] at heq hlt ⊢
      dsimp only at heq hlt ⊢
      rw [nil_append] at heq hlt
      have hpending := Utf8.pending_decode (.inl rfl) (pending ++ data)
      have hwhole : ∀ rest, Utf8.lossy (pending ++ data ++ rest) =
          (Utf8.decode [] (pending ++ data)).out ++
            Utf8.lossy ((Utf8.decode [] (pending ++ data)).pending ++ rest) := by
        intro rest
        rw [Utf8.lossy_pending hpending, Utf8.lossy, Utf8.decode_append]
        exact append_assoc _ _ _
      rw [hwhole chunks.flatten]
      have hclosed : Utf8.lossy (pending ++ data) =
          (Utf8.decode [] (pending ++ data)).out ++
            Utf8.flush (Utf8.decode [] (pending ++ data)).pending := rfl
      rw [hclosed, append_assoc, Utf8.characters_append, Utf8.characters_append,
        Utf8.characters_append]
      by_cases hcontinued : Utf8.continued (Utf8.decode [] (pending ++ data)).pending
          chunks.flatten = true
      · have hcut := Utf8.characters_cut hpending hcontinued
        refine ⟨fun hsound => absurd ⟨hformed, hcontinued⟩ hsound.1, fun _ => ?_⟩
        by_cases hsound : Sound [] chunks
        · rw [heq hsound]
          omega
        · have hmore := hlt hsound
          omega
      · have hcut := Utf8.lossy_cut hpending (by simpa using hcontinued)
        rw [hcut, Utf8.characters_append]
        refine ⟨fun hsound => by rw [heq hsound.2], fun hnot => ?_⟩
        have hmore := hlt (fun hsound => hnot ⟨fun hbroken => hcontinued hbroken.2, hsound⟩)
        omega
    · rw [decodeOutputChunk_spec h hformed] at heq hlt ⊢
      dsimp only at heq hlt ⊢
      have hwhole : Utf8.lossy (pending ++ data ++ chunks.flatten) =
          (Utf8.decode pending data).out ++
            Utf8.lossy ((Utf8.decode pending data).pending ++ chunks.flatten) := by
        rw [Utf8.lossy_pending (Utf8.pending_decode h data), Utf8.lossy, Utf8.decode_append,
          decode_resume h]
        exact append_assoc _ _ _
      rw [hwhole, Utf8.characters_append, Utf8.characters_append]
      refine ⟨fun hsound => by rw [heq hsound.2], fun hnot => ?_⟩
      have hmore := hlt (fun hsound => hnot ⟨fun hbroken => hformed hbroken.1, hsound⟩)
      omega

/-- Whatever the stream and its chunks: the texts of the calls, with the decoding of the
bytes carried over in the end, are the decoding of the stream exactly when no call both
meets an ill-formed byte and ends inside a character that the stream goes on with. -/
theorem decodeOutput_eq_iff (chunks : List Bytes) :
    (decodeOutput [] chunks).1 ++ Utf8.lossy (decodeOutput [] chunks).2 =
        Utf8.lossy chunks.flatten ↔
      ∀ before data after, chunks = before ++ data :: after →
        ¬ Broken (decodeOutput [] before).2 data after.flatten := by
  obtain ⟨heq, hlt⟩ := shown_spec (.inl rfl) chunks
  constructor
  · intro hshown
    by_contra hnot
    have hmore := hlt hnot
    have hsame : shown [] chunks = Utf8.lossy chunks.flatten := hshown
    rw [hsame] at hmore
    exact Nat.lt_irrefl _ hmore
  · intro hsound
    exact heq hsound

/-- A square cut after its first byte, in a chunk that begins with a stray byte: the
stream is one replacement and the square, the calls give four replacements. -/
theorem decodeOutput_cut :
    (decodeOutput [] [[0xff, 0xe2], [0x96, 0xa0]]).1 ++
        Utf8.lossy (decodeOutput [] [[0xff, 0xe2], [0x96, 0xa0]]).2 ≠
      Utf8.lossy [[0xff, 0xe2], [0x96, 0xa0]].flatten ∧
    decodeOutput [] [[0xff, 0xe2], [0x96, 0xa0]] =
      (Utf8.replacement ++ Utf8.replacement ++ Utf8.replacement ++ Utf8.replacement, []) ∧
    Utf8.lossy [[0xff, 0xe2], [0x96, 0xa0]].flatten = Utf8.replacement ++ [0xe2, 0x96, 0xa0] := by
  decide

end OutputDecoding

end Orkworksd.Runtime
