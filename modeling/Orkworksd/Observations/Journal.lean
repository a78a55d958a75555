import Orkworksd.Observations.Store

/- The journal of a session as bytes: what its lines are, and what reading them back
   gives.

   `Env.Reads` is what the store relies on from the JSON reader: a line it printed is
   read as the record it was printed from, up to the float, whose text serde_json does
   not read back exactly in its default configuration (`readBack`); and only what is
   lexically an object is read as one. `Written env P` says that a journal is nothing
   but pieces of lines of records in `P`, each cut short anywhere. However torn such a
   journal is, what `tolerant_parse` finds in it are records of `P`, because pieces
   that ran together are no object (`Written.parsed`). -/
namespace Orkworksd.Observations
open List

open Taskmaster (Bytes)
open Lib.Lines (newline chunks content)
open Lib.JsonText (Atom object encode Accepts Flat TokenChar)

/-! ## The reader -/

def readBack (env : Env) (stored : StoredObservation) : StoredObservation :=
  { stored with observation := { stored.observation with
      confidence := env.readF64 (env.printF64 stored.observation.confidence) } }

/-- What the reader does on texts the store may hand to it. -/
structure Env.Reads (env : Env) : Prop where
  token : ∀ q, ∀ c ∈ env.printF64 q, TokenChar c
  observation : ∀ stored, sequenceOf stored < 2 ^ 64 →
    ∃ value, env.fromSlice (serializeObservationLine env stored) = some value
      ∧ value.record = some "observation" ∧ value.asObservation = some (readBack env stored)
  tombstone : ∀ t : Tombstone, t.sequence < 2 ^ 64 →
    ∃ value, env.fromSlice (serializeTombstoneLine t) = some value
      ∧ value.record = some "tombstone" ∧ value.asTombstone = some t
  object : ∀ bytes value, env.fromSlice bytes = some value → value.record ≠ none → Accepts bytes

def recordLine (env : Env) : ParsedLine → Bytes
  | .observation stored => serializeObservationLine env stored
  | .tombstone t => serializeTombstoneLine t

def ParsedLine.sequence : ParsedLine → Nat
  | .observation stored => sequenceOf stored
  | .tombstone t => t.sequence

/-- The record a printed one is read back as. -/
def ParsedLine.readBack (env : Env) : ParsedLine → ParsedLine
  | .observation stored => .observation (Observations.readBack env stored)
  | .tombstone t => .tombstone t

theorem ParsedLine.readBack_sequence (env : Env) (r : ParsedLine) :
    (r.readBack env).sequence = r.sequence := by
  cases r <;> rfl

variable {r : ParsedLine}

section Lines

variable {env : Env} (h : env.Reads)
include h

theorem parseLine_recordLine (hr : r.sequence < 2 ^ 64) :
    parseLine env (recordLine env r) = some (r.readBack env) := by
  cases r with
  | observation stored =>
    obtain ⟨value, hvalue, hrecord, hread⟩ := h.observation stored hr
    simp only [recordLine, parseLine, hvalue, hrecord, if_true, hread, Option.map_some]
    rfl
  | tombstone t =>
    obtain ⟨value, hvalue, hrecord, hread⟩ := h.tombstone t hr
    have htag : ("tombstone" : String) ≠ "observation" := by decide
    simp only [recordLine, parseLine, hvalue, hrecord, if_neg htag, if_true, hread, Option.map_some]
    rfl

theorem accepts_of_parseLine {bytes : Bytes} (hr : parseLine env bytes = some r) :
    Accepts bytes := by
  rw [parseLine] at hr
  split at hr
  · cases hr
  · rename_i value hvalue
    refine h.object bytes value hvalue ?_
    intro hnone
    rw [hnone] at hr
    cases hr

end Lines

theorem toDigits_token (n : Nat) : ∀ c ∈ Nat.toDigits 10 n, TokenChar c := by
  intro c hc
  have hdigit := Nat.isDigit_of_mem_toDigits (by decide) (by decide) hc
  simp only [Char.isDigit, Bool.and_eq_true, decide_eq_true_eq] at hdigit
  have hrange : 48 ≤ c.toNat ∧ c.toNat ≤ 57 := hdigit
  have hne : ∀ d : Char, d.toNat < 48 ∨ 57 < d.toNat → c ≠ d := by
    intro d hd heq
    rw [heq] at hrange
    omega
  exact ⟨hne _ (by decide), by omega, by omega, hne _ (by decide), hne _ (by decide)⟩

def recordMembers (env : Env) : ParsedLine → List (List Char × Atom)
  | .observation stored => observationMembers env stored
  | .tombstone t => tombstoneMembers t

theorem recordLine_eq (env : Env) (r : ParsedLine) :
    recordLine env r = encode (object (recordMembers env r)) := by
  cases r <;> rfl

theorem text_valid (key value : String) : (text key value).2.Valid := trivial

variable {env : Env}

theorem recordMembers_valid (htoken : ∀ q, ∀ c ∈ env.printF64 q, TokenChar c)
    (r : ParsedLine) : ∀ m ∈ recordMembers env r, m.2.Valid := by
  cases r with
  | observation stored =>
    intro m hm
    simp only [recordMembers, observationMembers, mem_cons, not_mem_nil, or_false] at hm
    rcases hm with rfl | rfl | rfl | rfl | rfl | rfl | rfl | rfl | rfl | hm | rfl | rfl | rfl
      | rfl | rfl
    all_goals try exact text_valid _ _
    · exact htoken _
    · subst hm
      cases stored.observation.problemArea with
      | some area => exact text_valid _ _
      | none =>
        intro c hc
        have hchars : c ∈ ['n', 'u', 'l', 'l'] := hc
        simp only [mem_cons, not_mem_nil, or_false] at hchars
        rcases hchars with rfl | rfl | rfl | rfl <;> decide
    · exact toDigits_token _
  | tombstone t =>
    intro m hm
    simp only [recordMembers, tombstoneMembers, mem_cons, not_mem_nil, or_false] at hm
    rcases hm with rfl | rfl | rfl | rfl | rfl | rfl
    all_goals try exact text_valid _ _
    exact toDigits_token _

theorem flat_of_token (htoken : ∀ q, ∀ c ∈ env.printF64 q, TokenChar c)
    (r : ParsedLine) : Flat (recordLine env r) := by
  have hvalid := recordMembers_valid htoken r
  rw [recordLine_eq]
  cases r with
  | observation stored =>
    exact Lib.JsonText.object_flat (c := 'c')
      (hvalid _ mem_cons_self) (fun m hm => hvalid m (mem_cons_of_mem _ hm)) (by decide)
  | tombstone t =>
    exact Lib.JsonText.object_flat (c := 'a')
      (hvalid _ mem_cons_self) (fun m hm => hvalid m (mem_cons_of_mem _ hm)) (by decide)

section Lines

variable {env : Env} (h : env.Reads)
include h

variable (r : ParsedLine)

theorem recordLine_flat : Flat (recordLine env r) := flat_of_token h.token r

theorem newline_notMem_recordLine : newline ∉ recordLine env r := by
  rw [recordLine_eq]
  exact Lib.JsonText.newline_notMem_object (recordMembers_valid h.token r)

theorem recordLine_ne_nil : recordLine env r ≠ [] := by
  obtain ⟨b, rest, heq, -⟩ := (recordLine_flat h r).shape
  rw [heq]
  simp

end Lines

/-- The records of a rewrite, in the order they are written. -/
def records (tombs : List Tombstone) (obs : List StoredObservation) : List ParsedLine :=
  tombs.map .tombstone ++ obs.map .observation

theorem render_eq (env : Env) (tombs : List Tombstone) (obs : List StoredObservation) :
    render env tombs obs = ((records tombs obs).map (fun r => line (recordLine env r))).flatten := by
  rw [records, map_append, map_map, map_map, flatten_append]
  rfl

/-! ## Torn journals -/

/-- The journal is made of pieces of lines of records in `P`. -/
def Written (env : Env) (P : ParsedLine → Prop) (bytes : Bytes) : Prop :=
  ∃ pieces : List Bytes, bytes = pieces.flatten ∧
    ∀ p ∈ pieces, p ≠ [] ∧ ∃ r, P r ∧ p <+: line (recordLine env r)

namespace Written

variable {env : Env} {P Q : ParsedLine → Prop} {bytes : Bytes}

theorem nil : Written env P [] := ⟨[], rfl, by simp⟩

theorem mono (h : Written env P bytes) (hPQ : ∀ r, P r → Q r) : Written env Q bytes := by
  obtain ⟨pieces, hbytes, hpieces⟩ := h
  refine ⟨pieces, hbytes, fun p hp => ?_⟩
  obtain ⟨hne, r, hr, hpre⟩ := hpieces p hp
  exact ⟨hne, r, hPQ r hr, hpre⟩

theorem append {more : Bytes} (h : Written env P bytes) (h' : Written env P more) :
    Written env P (bytes ++ more) := by
  obtain ⟨ps, rfl, hps⟩ := h
  obtain ⟨qs, rfl, hqs⟩ := h'
  refine ⟨ps ++ qs, flatten_append.symm, fun p hp => ?_⟩
  rcases mem_append.mp hp with hp | hp
  · exact hps p hp
  · exact hqs p hp

theorem piece (hr : P r) {p : Bytes} (hp : p <+: line (recordLine env r)) :
    Written env P p := by
  by_cases hne : p = []
  · rw [hne]
    exact nil
  · refine ⟨[p], by simp, fun q hq => ?_⟩
    rw [mem_singleton.mp hq]
    exact ⟨hne, r, hr, hp⟩

theorem lines {records : List ParsedLine} (h : ∀ r ∈ records, P r) :
    Written env P (records.map (fun r => line (recordLine env r))).flatten := by
  induction records with
  | nil => exact nil
  | cons r records ih =>
    rw [map_cons, flatten_cons]
    exact append (piece (h r mem_cons_self) (prefix_refl _))
      (ih (fun x hx => h x (mem_cons_of_mem r hx)))

theorem take (h : Written env P bytes) (n : Nat) : Written env P (bytes.take n) := by
  obtain ⟨pieces, rfl, hpieces⟩ := h
  induction pieces generalizing n with
  | nil =>
    rw [flatten_nil, take_nil]
    exact nil
  | cons p ps ih =>
    obtain ⟨-, r, hr, hpre⟩ := hpieces p mem_cons_self
    rw [flatten_cons, take_append]
    exact append (piece hr ((List.take_prefix n p).trans hpre))
      (ih _ (fun q hq => hpieces q (mem_cons_of_mem p hq)))

theorem chunk (h : env.Reads) (acc : List Bytes)
    (hacc : ∀ p ∈ acc, p ≠ [] ∧ ∃ r, P r ∧ p <+: recordLine env r) {pieces : List Bytes}
    (hpieces : ∀ p ∈ pieces, p ≠ [] ∧ ∃ r, P r ∧ p <+: line (recordLine env r))
    {chunk : Bytes} (hchunk : chunk ∈ chunks (acc.flatten ++ pieces.flatten)) :
    ∃ ps : List Bytes, content chunk = ps.flatten ∧
      ∀ p ∈ ps, p ≠ [] ∧ ∃ r, P r ∧ p <+: recordLine env r := by
  have hfree : ∀ (ps : List Bytes), (∀ p ∈ ps, p ≠ [] ∧ ∃ r, P r ∧ p <+: recordLine env r) →
      newline ∉ ps.flatten := by
    intro ps hps hmem
    obtain ⟨p, hp, hin⟩ := mem_flatten.mp hmem
    obtain ⟨-, r, -, hpre⟩ := hps p hp
    exact newline_notMem_recordLine h r (hpre.subset hin)
  induction pieces generalizing acc with
  | nil =>
    rw [flatten_nil, append_nil] at hchunk
    by_cases hnil : acc.flatten = []
    · rw [hnil] at hchunk
      cases hchunk
    · rw [Lib.Lines.chunks_tail (hfree acc hacc) hnil, mem_singleton] at hchunk
      rw [hchunk, Lib.Lines.content_tail (hfree acc hacc)]
      exact ⟨acc, rfl, hacc⟩
  | cons p ps ih =>
    obtain ⟨hne, r, hr, hpre⟩ := hpieces p mem_cons_self
    have hps : ∀ q ∈ ps, q ≠ [] ∧ ∃ r, P r ∧ q <+: line (recordLine env r) :=
      fun q hq => hpieces q (mem_cons_of_mem p hq)
    have hsnoc : ∀ q : Bytes, q ≠ [] → q <+: recordLine env r →
        ∀ x ∈ acc ++ [q], x ≠ [] ∧ ∃ r, P r ∧ x <+: recordLine env r := by
      intro q hq hqr x hx
      rcases mem_append.mp hx with hx | hx
      · exact hacc x hx
      · rw [mem_singleton.mp hx]
        exact ⟨hq, r, hr, hqr⟩
    rw [flatten_cons, ← append_assoc] at hchunk
    rcases prefix_concat_iff.mp hpre with hfull | hpart
    · -- The whole line: its line feed ends the chunk.
      have hall := hsnoc (recordLine env r) (recordLine_ne_nil h r) (prefix_refl _)
      have hline : acc.flatten ++ p = (acc ++ [recordLine env r]).flatten ++ [newline] := by
        rw [hfull]
        simp
      rw [hline, append_assoc, singleton_append,
        Lib.Lines.chunks_line (hfree _ hall), mem_cons] at hchunk
      rcases hchunk with rfl | hchunk
      · rw [Lib.Lines.content_line]
        exact ⟨_, rfl, hall⟩
      · exact ih [] (by simp) hps (by simpa using hchunk)
    · have hall := hsnoc p hne hpart
      refine ih (acc ++ [p]) hall hps ?_
      rwa [flatten_append, flatten_singleton]

theorem parsed (h : env.Reads) (hseq : ∀ r, P r → r.sequence < 2 ^ 64) (hw : Written env P bytes)
    {chunk : Bytes} (hchunk : chunk ∈ chunks bytes)
    (hr : parseLine env (content chunk) = some r) : ∃ r₀, P r₀ ∧ r = r₀.readBack env := by
  obtain ⟨pieces, rfl, hpieces⟩ := hw
  obtain ⟨ps, hcontent, hps⟩ := Written.chunk h [] (by simp) hpieces (by simpa using hchunk)
  have haccepts := accepts_of_parseLine h hr
  rw [hcontent] at haccepts
  obtain ⟨l, rfl, hl⟩ := Flat.pieces (fun q hq => by
    obtain ⟨hne, r, -, hpre⟩ := hps q hq
    exact ⟨hne, _, recordLine_flat h r, hpre⟩) haccepts
  obtain ⟨hne, r₀, hP, hpre⟩ := hps l mem_cons_self
  have hwhole : l = recordLine env r₀ := by
    rcases (recordLine_flat h r₀).whole_or_open hpre hne hl.accepts with ⟨-, hl⟩ | hopen
    · exact hl
    · exact absurd hopen id
  rw [hcontent, flatten_singleton, hwhole, parseLine_recordLine h (hseq r₀ hP)] at hr
  cases hr
  exact ⟨r₀, hP, rfl⟩

end Written

/-- The record is one of those a journal was read as. -/
def ParsedSegment.Holds (parsed : ParsedSegment) : ParsedLine → Prop
  | .observation stored => stored ∈ parsed.observations
  | .tombstone t => t ∈ parsed.tombstones

theorem parseChunks_holds {cs : List Bytes} {consumed : Nat}
    (h : (parseChunks env consumed cs).Holds r) :
    ∃ chunk ∈ cs, parseLine env (content chunk) = some r := by
  induction cs generalizing consumed with
  | nil => cases r <;> cases h
  | cons chunk rest ih =>
    have hlater : ∀ {n : Nat}, (parseChunks env n rest).Holds r →
        ∃ c ∈ chunk :: rest, parseLine env (content c) = some r := by
      intro n hn
      obtain ⟨c, hc, hr⟩ := ih hn
      exact ⟨c, mem_cons_of_mem chunk hc, hr⟩
    rw [parseChunks] at h
    split at h
    · exact hlater h
    · split at h
      · rename_i stored hparse
        cases r with
        | observation o =>
          rcases mem_cons.mp h with rfl | ho
          · exact ⟨chunk, mem_cons_self, hparse⟩
          · exact hlater ho
        | tombstone t => exact hlater h
      · rename_i tombstone hparse
        cases r with
        | observation o => exact hlater h
        | tombstone t =>
          rcases mem_cons.mp h with rfl | ht
          · exact ⟨chunk, mem_cons_self, hparse⟩
          · exact hlater ht
      · split at h
        · cases r <;> cases h
        · exact hlater h

theorem Written.holds {P : ParsedLine → Prop} {bytes : Bytes} (h : env.Reads)
    (hseq : ∀ r, P r → r.sequence < 2 ^ 64) (hw : Written env P bytes)
    (hr : (tolerantParse env bytes).Holds r) : ∃ r₀, P r₀ ∧ r = r₀.readBack env := by
  obtain ⟨chunk, hchunk, hparse⟩ := parseChunks_holds hr
  exact hw.parsed h hseq hchunk hparse

/-! ## A reader that meets the laws -/

theorem kindText_injective : Function.Injective kindText := by
  intro a b h
  cases a <;> cases b <;> first | rfl | exact absurd h (by decide)

theorem impactText_injective : Function.Injective impactText := by
  intro a b h
  cases a <;> cases b <;> first | rfl | exact absurd h (by decide)

theorem sourceText_injective : Function.Injective sourceText := by
  intro a b h
  cases a <;> cases b <;> first | rfl | exact absurd h (by decide)

theorem text_inj {key key' a b : String} (h : text key a = text key' b) : a = b := by
  have h := (Prod.mk.inj h).2
  exact String.toList_inj.mp (Atom.text.inj h)

theorem token_inj {key key' : String} {a b : List Char} (h : token key a = token key' b) :
    a = b := Atom.token.inj (Prod.mk.inj h).2

theorem toDigits_injective {a b : Nat} (h : Nat.toDigits 10 a = Nat.toDigits 10 b) : a = b := by
  rw [← Nat.ofDigitChars_ten_toDigits (n := a), h, Nat.ofDigitChars_ten_toDigits]

theorem readBack_of_recordLine (htoken : ∀ q, ∀ c ∈ env.printF64 q, TokenChar c) {r' : ParsedLine}
    (h : recordLine env r = recordLine env r') :
    r.readBack env = r'.readBack env := by
  rw [recordLine_eq, recordLine_eq] at h
  have hmembers := Lib.JsonText.object_inj (recordMembers_valid htoken r)
    (recordMembers_valid htoken r') h
  cases r with
  | observation a =>
    cases r' with
    | observation b =>
      simp only [recordMembers, observationMembers, List.cons.injEq, and_true] at hmembers
      obtain ⟨hconf, hdesc, hevid, hfp, hid, hkey, hkind, hat, hpay, harea, -, himp, hseq, hsess,
        hsrc⟩ := hmembers
      have harea' : a.observation.problemArea = b.observation.problemArea := by
        cases ha : a.observation.problemArea with
        | none =>
          cases hb : b.observation.problemArea with
          | none => rfl
          | some y =>
            rw [ha, hb] at harea
            cases harea
        | some x =>
          cases hb : b.observation.problemArea with
          | none =>
            rw [ha, hb] at harea
            cases harea
          | some y =>
            rw [ha, hb] at harea
            rw [text_inj harea]
      have hfloat : env.readF64 (env.printF64 a.observation.confidence)
          = env.readF64 (env.printF64 b.observation.confidence) :=
        congrArg env.readF64 (token_inj hconf)
      refine congrArg ParsedLine.observation ?_
      simp only [readBack, StoredObservation.mk.injEq, Taskmaster.WorkflowObservation.mk.injEq]
      exact ⟨⟨text_inj hid, toDigits_injective (token_inj hseq), text_inj hsess, text_inj hat,
        kindText_injective (text_inj hkind), text_inj hdesc, text_inj hevid, harea',
        impactText_injective (text_inj himp), sourceText_injective (text_inj hsrc), hfloat,
        text_inj hfp⟩, text_inj hkey, text_inj hpay⟩
    | tombstone t =>
      have hlen : 15 = 6 := congrArg List.length hmembers
      omega
  | tombstone t =>
    cases r' with
    | observation b =>
      have hlen : 6 = 15 := congrArg List.length hmembers
      omega
    | tombstone u =>
      simp only [recordMembers, tombstoneMembers, List.cons.injEq, and_true] at hmembers
      obtain ⟨hat, hkey, hid, hpay, -, hseq⟩ := hmembers
      have hsame : t = u := by
        cases t
        cases u
        simp only [Tombstone.mk.injEq]
        exact ⟨text_inj hkey, text_inj hpay, text_inj hid, toDigits_injective (token_inj hseq),
          text_inj hat⟩
      rw [hsame]

/-- The value of a line, as a reader gives it. -/
def ParsedLine.value (env : Env) : ParsedLine → JsonValue
  | .observation stored => ⟨some "observation", some (Observations.readBack env stored), none⟩
  | .tombstone t => ⟨some "tombstone", none, some t⟩

theorem ParsedLine.value_of_readBack {r' : ParsedLine}
    (h : r.readBack env = r'.readBack env) : r.value env = r'.value env := by
  cases r with
  | observation a =>
    cases r' with
    | observation b =>
      have h : Observations.readBack env a = Observations.readBack env b :=
        ParsedLine.observation.inj h
      simp only [ParsedLine.value, h]
    | tombstone t => cases h
  | tombstone t =>
    cases r' with
    | observation b => cases h
    | tombstone u =>
      cases h
      rfl

open Classical in
/-- The environment whose reader reads the lines of records and nothing else. -/
noncomputable def Env.lineReader (env : Env) : Env :=
  { env with fromSlice := fun bytes =>
      if h : ∃ r, recordLine env r = bytes then some (h.choose.value env) else none }

theorem lineReader_fromSlice (htoken : ∀ q, ∀ c ∈ env.printF64 q, TokenChar c)
    (r : ParsedLine) : env.lineReader.fromSlice (recordLine env r) = some (r.value env) := by
  have hex : ∃ r', recordLine env r' = recordLine env r := ⟨r, rfl⟩
  have hvalue : env.lineReader.fromSlice (recordLine env r) = some (hex.choose.value env) :=
    dif_pos hex
  rw [hvalue, ParsedLine.value_of_readBack (readBack_of_recordLine htoken hex.choose_spec)]

theorem lineReader_reads (htoken : ∀ q, ∀ c ∈ env.printF64 q, TokenChar c) :
    env.lineReader.Reads where
  token := htoken
  observation := fun stored _ =>
    ⟨_, lineReader_fromSlice htoken (.observation stored), rfl, rfl⟩
  tombstone := fun t _ => ⟨_, lineReader_fromSlice htoken (.tombstone t), rfl, rfl⟩
  object := by
    intro bytes value hvalue _
    have hex : ∃ r, recordLine env r = bytes := by
      by_contra hno
      have hnone : env.lineReader.fromSlice bytes = none := dif_neg hno
      rw [hnone] at hvalue
      cases hvalue
    obtain ⟨r, rfl⟩ := hex
    exact (flat_of_token htoken r).accepts

/-! ## A sample -/

def sampleDigest (bytes : Bytes) : String :=
  if bytes = Taskmaster.utf8 "s1" ++ [0] ++ Taskmaster.utf8 "k1" then
    "4201c0ee0f85b876b7c5a94a4a1fdcce135ac4c17e5b727436e38b81b3e7f2dc"
  else if bytes = Taskmaster.utf8 "s1" ++ [0] ++ Taskmaster.utf8 "k2" then
    "a6da56021f66d1f47289694f6aa053245eef11a8661f0b1b42da42c651332d0e"
  else "6b4c33864cd1e7078e88a286b086a1f9364b06bc3d7bf73eac1df0eb79063f43"

def sampleTime : Timestamp := ⟨1767225600000000000, by decide, by decide⟩

/-- An environment that is right on the sample calls. -/
def sampleEnv : Env where
  sha256 := sampleDigest
  toRfc3339 := fun t =>
    if t = sampleTime then "2026-01-01T00:00:00+00:00" else toString t.nanos
  parseRfc3339 := fun iso =>
    if iso = "2026-01-01T00:00:00+00:00" then some sampleTime else none
  toLowercase := fun c => [c.toLower]
  nfkc := id
  printF64 := fun q => if q = agentConfidence then "0.9".toList else "0.0".toList
  readF64 := fun chars => if chars = "0.9".toList then agentConfidence else 0
  fromSlice := fun _ => none

theorem sampleEnv_token : ∀ q, ∀ c ∈ sampleEnv.printF64 q, TokenChar c := by
  intro q c hc
  have hchars : c ∈ ['0', '.', '9'] := by
    have hprinted : c ∈ (if q = agentConfidence then "0.9".toList else "0.0".toList) := hc
    split at hprinted
    · exact hprinted
    · have hzero : c ∈ ['0', '.', '0'] := hprinted
      simp only [mem_cons, not_mem_nil, or_false] at hzero ⊢
      rcases hzero with rfl | rfl | rfl <;> simp
  simp only [mem_cons, not_mem_nil, or_false] at hchars
  rcases hchars with rfl | rfl | rfl <;> decide

/-- A report of an agent. -/
def sampleCall (key id : String) : RecordCall where
  sessionId := "s1"
  origin := .agent
  idempotencyKey := key
  candidate := ⟨.obstacle, "blocked", "failure", none, .low, none⟩
  now := sampleTime
  id := id

end Orkworksd.Observations
