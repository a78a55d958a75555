import Orkworksd.GitChanges.Eol

/- The content of a worktree file against a blob (`git_changes_fs.rs`, `bounded`): a small file
   is read and cleaned, a large one is hashed while it is read, once as it is and once cleaned.

   A read is what it returned, with the time that had passed before it; SHA-1 is a parameter,
   and a hasher is the bytes that it was given. `readLoop_stable` says what a pass over a file
   that stays as it is comes to, however the reads split it, and `bounded_unchanged` that the
   two passes decide what cleaning the whole file decides. -/
namespace Orkworksd.GitChanges
open List

/-! ## The source -/

/-- One turn of a loop over a file: the nanoseconds since the capture began, and what the
read gave. A read of no bytes is the end of the file. -/
structure Read where
  elapsed : Nat
  result : Option Bytes
  deriving DecidableEq, Repr

def inputLimit : Nat := 1024 * 1024

def hashLimit : Nat := 64 * 1024 * 1024

/-- Five seconds. -/
def captureNanos : Nat := 5000000000

/-- The loop of the two passes, with the bytes hashed under the budget: the bytes read and
what `step` has made of them. After the reads given, the file is at its end. -/
def readLoop {σ : Type} (size : Nat) (step : σ → Bytes → σ) :
    List Read → Nat → Nat → σ → Except String (Nat × σ) × Nat
  | [], read, hashBytes, state => (.ok (read, state), hashBytes)
  | ⟨elapsed, result⟩ :: reads, read, hashBytes, state =>
    if captureNanos < elapsed then
      (.error "Capture budget exceeded; content unavailable.", hashBytes)
    else
      match result with
      | none => (.error "Unreadable file.", hashBytes)
      | some [] => (.ok (read, state), hashBytes)
      | some (b :: bytes) =>
        let read := read + (b :: bytes).length
        let hashBytes := hashBytes + (b :: bytes).length
        if size < read ∨ hashLimit < hashBytes then
          (.error "File changed or equality budget exceeded; refresh.", hashBytes)
        else readLoop size step reads read hashBytes (step state (b :: bytes))

/-- `format!("blob {size}\0")`. -/
def blobHeader (size : Nat) : Bytes := ("blob " ++ toString size).toUTF8.toList ++ [0]

section hashing
variable (sha1 : Bytes → Bytes)

def blobId (content : Bytes) : Bytes := sha1 (blobHeader content.length ++ content)

/-- What `raw_blob_digest` does with a chunk. -/
def digestChunk (state : Bytes × Stats) (chunk : Bytes) : Bytes × Stats :=
  (state.1 ++ chunk, state.2.add chunk)

/-- `raw_blob_digest`: the bytes read, the digest and the statistics. -/
def rawBlobDigest (size : Nat) (reads : List Read) (hashBytes : Nat) :
    Except String (Nat × Bytes × Stats) × Nat :=
  let passed := readLoop size digestChunk reads 0 hashBytes (blobHeader size, Stats.empty)
  (passed.1.map (fun found => (found.1, sha1 found.2.1, found.2.2)), passed.2)

/-- What `normalized_blob_matches` carries from read to read. -/
structure Normalizing where
  hashed : Bytes
  pendingCr : Bool
  output : Nat
  deriving DecidableEq, Repr

def Normalizing.add (state : Normalizing) (chunk : Bytes) : Normalizing :=
  let cleaned := crlfNormalizedChunk state.pendingCr chunk
  ⟨state.hashed ++ cleaned.1, cleaned.2, state.output + cleaned.1.length⟩

/-- What follows the loop. -/
def Normalizing.finish (state : Normalizing) : Bytes × Nat :=
  if state.pendingCr then (state.hashed ++ [carriageReturn], state.output + 1)
  else (state.hashed, state.output)

/-- `reads` is none where the file cannot be rewound. -/
def normalizedBlobMatches (size crlf : Nat) (expected : Bytes) (reads : Option (List Read))
    (hashBytes : Nat) : Except String Bool × Nat :=
  if hashLimit < hashBytes + size then
    (.error "Large-file equality budget exceeded; content unavailable.", hashBytes)
  else
    match reads with
    | none => (.error "File changed; refresh.", hashBytes)
    | some reads =>
      let normalizedSize := size - crlf
      let passed := readLoop size Normalizing.add reads 0 hashBytes
        ⟨blobHeader normalizedSize, false, 0⟩
      (passed.1.map (fun found => decide (found.1 = size ∧ found.2.finish.2 = normalizedSize ∧
        sha1 found.2.finish.1 = expected)), passed.2)

/-- A file: the size in its metadata, what reading it whole gives, the reads of the first pass
and those from its start again. -/
structure File where
  size : Option Nat
  content : Option Bytes
  first : List Read
  second : Option (List Read)

/-- `bounded`: the cleaned content, or none where the file is unchanged. -/
def bounded (f : File) (expected : Option Bytes) (eol : Eol) (hashBytes : Nat) :
    Except String (Option Bytes) × Nat :=
  match f.size with
  | none => (.error "Unreadable file.", hashBytes)
  | some size =>
    if inputLimit < size then
      match expected with
      | none => (.error "File exceeds 1 MiB; patch unavailable.", hashBytes)
      | some expected =>
        if hashLimit < size ∨ hashLimit < hashBytes + size then
          (.error "Large-file equality budget exceeded; content unavailable.", hashBytes)
        else
          let raw := rawBlobDigest sha1 size f.first hashBytes
          match raw.1 with
          | .error e => (.error e, raw.2)
          | .ok (read, digest, stats) =>
            if read = size ∧ digest = expected ∧
                (eol.converts stats = false ∨ stats.crlf = 0 ∨ eol = .autoIndexSame) then
              (.ok none, raw.2)
            else if eol.converts stats = true ∧ 0 < stats.crlf then
              let normalized :=
                normalizedBlobMatches sha1 size stats.crlf expected f.second raw.2
              match normalized.1 with
              | .error e => (.error e, normalized.2)
              | .ok true => (.ok none, normalized.2)
              | .ok false => (.error "File exceeds 1 MiB; patch unavailable.", normalized.2)
            else (.error "File exceeds 1 MiB; patch unavailable.", raw.2)
    else
      match f.content with
      | none => (.error "Unreadable file.", hashBytes)
      | some content =>
        if inputLimit < (content.take (inputLimit + 1)).length then
          (.error "File exceeds 1 MiB; patch unavailable.", hashBytes)
        else (.ok (some (eol.clean (content.take (inputLimit + 1)))), hashBytes)

end hashing

/-- The end of `policy`: the mode that the attributes ask for, the blob in the index, and
whether HEAD has it too. -/
def policyMode (mode : Eol) (index : Option Bytes) (isHead : Bool) : Except String Eol :=
  match index with
  | none => .ok mode
  | some content =>
    if mode = .auto then
      if content.length ≤ inputLimit then
        if carriageReturn ∈ content then .ok .raw else .ok mode
      else if isHead = false then
        .error "Index content exceeds normalization budget; patch unavailable."
      else .ok .autoIndexSame
    else .ok mode

/-! ## A pass over a stable file -/

/-- The reads of a loop over a file that stays as it is, in time. -/
inductive Gives : Bytes → List Read → Prop
  | done {elapsed : Nat} {rest : List Read} (hsoon : elapsed ≤ captureNanos) :
      Gives [] (⟨elapsed, some []⟩ :: rest)
  | more {elapsed : Nat} {chunk content : Bytes} {reads : List Read}
      (hsoon : elapsed ≤ captureNanos) (hchunk : chunk ≠ []) (hrest : Gives content reads) :
      Gives (chunk ++ content) (⟨elapsed, some chunk⟩ :: reads)

theorem readLoop_gives {σ : Type} {step : σ → Bytes → σ}
    (hnil : ∀ state, step state [] = state)
    (happend : ∀ state x y, step (step state x) y = step state (x ++ y))
    {content : Bytes} {reads : List Read} (h : Gives content reads) {size read hashBytes : Nat}
    (state : σ) (hsize : read + content.length ≤ size)
    (hbudget : hashBytes + content.length ≤ hashLimit) :
    readLoop size step reads read hashBytes state =
      (.ok (read + content.length, step state content), hashBytes + content.length) := by
  induction h generalizing read hashBytes state with
  | done hsoon =>
    show readLoop size step (⟨_, some []⟩ :: _) read hashBytes state = _
    rw [readLoop, if_neg (Nat.not_lt.mpr hsoon), hnil]
    rfl
  | @more elapsed chunk content reads hsoon hchunk hrest ih =>
    obtain ⟨b, bytes, rfl⟩ := exists_cons_of_ne_nil hchunk
    rw [length_append] at hsize hbudget
    -- neither the size nor the budget is passed
    have hinside : ¬(size < read + (b :: bytes).length ∨
        hashLimit < hashBytes + (b :: bytes).length) := by omega
    have hnext : readLoop size step reads (read + (b :: bytes).length)
        (hashBytes + (b :: bytes).length) (step state (b :: bytes)) = _ :=
      ih _ (by omega) (by omega)
    show readLoop size step (⟨elapsed, some (b :: bytes)⟩ :: reads) read hashBytes state = _
    rw [readLoop, if_neg (Nat.not_lt.mpr hsoon)]
    show (if _ then _ else _) = _
    rw [if_neg hinside, hnext, happend, length_append, Nat.add_assoc, Nat.add_assoc]

variable (state : Bytes × Stats)

theorem digestChunk_nil : digestChunk state [] = state := by
  rw [digestChunk, append_nil]
  rfl

theorem digestChunk_append (x y : Bytes) :
    digestChunk (digestChunk state x) y = digestChunk state (x ++ y) := by
  simp only [digestChunk, append_assoc, Stats.add_append]

theorem Normalizing.add_nil (state : Normalizing) : state.add [] = state := by
  show (⟨state.hashed ++ [], state.pendingCr, state.output + 0⟩ : Normalizing) = state
  rw [append_nil, Nat.add_zero]

theorem Normalizing.add_append (state : Normalizing) (x y : Bytes) :
    (state.add x).add y = state.add (x ++ y) := by
  simp only [Normalizing.add, crlfNormalizedChunk_append, append_assoc, length_append,
    Nat.add_assoc]

theorem Normalizing.add_finish (header content : Bytes) :
    ((⟨header, false, 0⟩ : Normalizing).add content).finish =
      (header ++ strip content, (strip content).length) := by
  have hstrip := crlfNormalizedChunk_strip false content
  have hnone : pending false = [] := rfl
  rw [hnone, nil_append] at hstrip
  rw [← hstrip, Normalizing.add, Normalizing.finish]
  cases (crlfNormalizedChunk false content).2 with
  | false => simp [pending]
  | true => simp [pending]

/-! ## The two passes decide what cleaning decides -/

/-- A file with this content that stays as it is while it is read, and that can be rewound. -/
structure File.Stable (f : File) (content : Bytes) : Prop where
  size : f.size = some content.length
  whole : f.content = some content
  first : Gives content f.first
  second : ∃ reads, f.second = some reads ∧ Gives content reads

section passes
variable (sha1 : Bytes → Bytes)

/-- Room in the budget for every pass that runs. -/
def WithinBudget (expected : Bytes) (eol : Eol) (content : Bytes) (hashBytes : Nat) : Prop :=
  hashBytes + content.length ≤ hashLimit ∧
    (eol.converts (Stats.empty.add content) = true → 0 < (Stats.empty.add content).crlf →
      ¬(eol = .autoIndexSame ∧ blobId sha1 content = expected) →
        hashBytes + 2 * content.length ≤ hashLimit)

variable {content : Bytes} {hashBytes : Nat}

variable {reads : List Read}

theorem rawBlobDigest_gives (h : Gives content reads)
    (hbudget : hashBytes + content.length ≤ hashLimit) :
    rawBlobDigest sha1 content.length reads hashBytes =
      (.ok (content.length, blobId sha1 content, Stats.empty.add content),
        hashBytes + content.length) := by
  have hpass : readLoop content.length digestChunk reads 0 hashBytes _ = _ :=
    readLoop_gives digestChunk_nil digestChunk_append h
      (blobHeader content.length, Stats.empty) (by omega) hbudget
  rw [rawBlobDigest, hpass, Nat.zero_add]
  rfl

variable {expected : Bytes}

theorem normalizedBlobMatches_gives (h : Gives content reads)
    (hbudget : hashBytes + content.length ≤ hashLimit) :
    normalizedBlobMatches sha1 content.length (Stats.empty.add content).crlf expected (some reads)
        hashBytes =
      (.ok (decide (blobId sha1 (strip content) = expected)), hashBytes + content.length) := by
  have hsize : content.length - (Stats.empty.add content).crlf = (strip content).length := by
    have hlength := length_strip content
    omega
  have hpass : readLoop content.length Normalizing.add reads 0 hashBytes _ = _ :=
    readLoop_gives Normalizing.add_nil Normalizing.add_append h
      ⟨blobHeader (strip content).length, false, 0⟩ (by omega) hbudget
  rw [normalizedBlobMatches, if_neg (Nat.not_lt.mpr hbudget)]
  simp only [hpass, hsize, Except.map, Normalizing.add_finish, Nat.zero_add, true_and]
  rfl

variable {f : File} {eol : Eol}

theorem bounded_passes (hf : f.Stable content) (hlarge : inputLimit < content.length)
    (hbudget : WithinBudget sha1 expected eol content hashBytes) :
    (bounded sha1 f (some expected) eol hashBytes).1 = .ok none ↔
      (blobId sha1 content = expected ∧ (eol.converts (Stats.empty.add content) = false ∨
          (Stats.empty.add content).crlf = 0 ∨ eol = .autoIndexSame)) ∨
        ((eol.converts (Stats.empty.add content) = true ∧ 0 < (Stats.empty.add content).crlf) ∧
          blobId sha1 (strip content) = expected) := by
  obtain ⟨reads, hreads, hsecond⟩ := hf.second
  obtain ⟨hfirst, hboth⟩ := hbudget
  have hopen : ¬(hashLimit < content.length ∨ hashLimit < hashBytes + content.length) := by omega
  simp only [bounded, hf.size, if_pos hlarge, if_neg hopen, hreads,
    rawBlobDigest_gives sha1 hf.first hfirst, true_and]
  by_cases hraw : blobId sha1 content = expected ∧
      (eol.converts (Stats.empty.add content) = false ∨ (Stats.empty.add content).crlf = 0 ∨
        eol = .autoIndexSame)
  · rw [if_pos hraw]
    exact iff_of_true rfl (.inl hraw)
  · rw [if_neg hraw]
    have hother (e : String) : (Except.error e : Except String (Option Bytes)) ≠ .ok none :=
      fun h => by cases h
    by_cases hcleans : eol.converts (Stats.empty.add content) = true ∧
        0 < (Stats.empty.add content).crlf
    · have hroom := hboth hcleans.1 hcleans.2 (fun h => hraw ⟨h.2, .inr (.inr h.1)⟩)
      rw [if_pos hcleans, normalizedBlobMatches_gives sha1 hsecond (by omega)]
      by_cases hequal : blobId sha1 (strip content) = expected
      · rw [decide_eq_true hequal]
        exact iff_of_true rfl (.inr ⟨hcleans, hequal⟩)
      · rw [decide_eq_false hequal]
        exact iff_of_false (hother _) (fun h => h.elim hraw (fun h => hequal h.2))
    · rw [if_neg hcleans]
      exact iff_of_false (hother _) (fun h => h.elim hraw (fun h => hcleans h.1))

theorem bounded_large (hf : f.Stable content) (hlarge : inputLimit < content.length)
    (hbudget : WithinBudget sha1 expected eol content hashBytes) :
    (bounded sha1 f (some expected) eol hashBytes).1 = .ok none ↔
      blobId sha1 (eol.clean content) = expected ∨
        (eol = .autoIndexSame ∧ blobId sha1 content = expected) := by
  rw [bounded_passes sha1 hf hlarge hbudget, Eol.clean_eq]
  by_cases hconverts : eol.converts (Stats.empty.add content) = true
  · rw [if_pos hconverts]
    by_cases hcrlf : (Stats.empty.add content).crlf = 0
    · -- nothing is left out, so the two blobs are one
      rw [strip_of_crlf hcrlf]
      simp only [hconverts, hcrlf, Nat.lt_irrefl, true_or, or_true, and_true, and_false,
        false_and, or_false]
      exact ⟨Or.inl, fun h => h.elim id And.right⟩
    · have hpos : 0 < (Stats.empty.add content).crlf := by omega
      simp only [hconverts, hcrlf, hpos, Bool.true_eq_false, false_or, true_and, and_self]
      exact ⟨fun h => h.elim (fun h => .inr ⟨h.2, h.1⟩) .inl,
        fun h => h.elim .inr (fun h => .inl ⟨h.2, h.1⟩)⟩
  · have hkeeps : eol.converts (Stats.empty.add content) = false :=
      Bool.eq_false_of_not_eq_true hconverts
    rw [hkeeps, if_neg Bool.false_ne_true]
    simp only [true_or, and_true, Bool.false_eq_true, false_and, or_false]
    exact ⟨Or.inl, fun h => h.elim id And.right⟩

end passes

/-! ## One line-ending history -/

/-- The mode of a file where the blob in the index, with these line endings, is small. -/
def smallMode (mode : Eol) (index : Bytes) : Eol :=
  if mode = .auto ∧ carriageReturn ∈ index then .raw else mode

variable {index : Bytes}

theorem policyMode_small (mode : Eol) (h : index.length ≤ inputLimit) (isHead : Bool) :
    policyMode mode (some index) isHead = .ok (smallMode mode index) := by
  rw [policyMode, smallMode]
  by_cases hauto : mode = .auto
  · by_cases hcr : carriageReturn ∈ index
    · simp [hauto, h, hcr]
    · simp [hauto, h, hcr]
  · simp [hauto]

theorem policyMode_head {mode eol : Eol} (h : policyMode mode (some index) true = .ok eol) :
    eol = smallMode mode index ∨ (mode = .auto ∧ eol = .autoIndexSame) := by
  by_cases hsmall : index.length ≤ inputLimit
  · rw [policyMode_small mode hsmall] at h
    exact .inl (Except.ok.inj h).symm
  · rw [policyMode] at h
    by_cases hauto : mode = .auto
    · simp only [hauto, hsmall, if_true, if_false, Bool.true_eq_false] at h
      exact .inr ⟨hauto, (Except.ok.inj h).symm⟩
    · simp only [hauto, if_false] at h
      simp only [smallMode, hauto, false_and, if_false]
      exact .inl (Except.ok.inj h).symm

theorem clean_both (content index : Bytes) :
    (Eol.autoIndexSame.clean content = index ∨ content = index) ↔
      (smallMode .auto index).clean content = index := by
  rw [smallMode]
  by_cases hcr : carriageReturn ∈ index
  · rw [if_pos ⟨rfl, hcr⟩]
    show _ ↔ content = index
    refine ⟨fun h => h.elim (fun hclean => ?_) id, .inr⟩
    rw [Eol.clean_eq] at hclean
    by_cases hbinary : (Stats.empty.add content).binary = true
    · have hkeeps : Eol.autoIndexSame.converts (Stats.empty.add content) = false := by
        simp [Eol.converts, hbinary]
      rw [hkeeps, if_neg Bool.false_ne_true] at hclean
      exact hclean
    · -- what is cleaned has no carriage return, and the index has one
      have htext : (Stats.empty.add content).binary = false := Bool.eq_false_of_not_eq_true hbinary
      have hconverts : Eol.autoIndexSame.converts (Stats.empty.add content) = true := by
        simp [Eol.converts, htext]
      rw [hconverts, if_pos rfl] at hclean
      exact absurd (hclean ▸ hcr) (not_mem_strip htext)
  · rw [if_neg (fun h => hcr h.2)]
    have hsame : Eol.autoIndexSame.clean content = Eol.auto.clean content := by
      rw [Eol.clean_eq, Eol.clean_eq]
      rfl
    rw [hsame]
    refine ⟨fun h => h.elim id (fun hcontent => ?_), .inl⟩
    rw [Eol.clean_eq, strip_of_not_mem (hcontent ▸ hcr), ite_self, hcontent]

/-- However its reads split it, a large file that is stable is unchanged exactly where the
blob of its cleaned content is the one expected or, where the index has the blob of HEAD, the
blob of the file as it is. Where no other content has the id of HEAD's blob, that is where
cleaning as for a small file with these line endings gives what HEAD has. -/
theorem bounded_unchanged (sha1 : Bytes → Bytes) {f : File} {content : Bytes}
    (hf : f.Stable content) (hlarge : inputLimit < content.length) :
    (∀ (expected : Bytes) (eol : Eol) (hashBytes : Nat),
      WithinBudget sha1 expected eol content hashBytes →
        ((bounded sha1 f (some expected) eol hashBytes).1 = .ok none ↔
          blobId sha1 (eol.clean content) = expected ∨
            (eol = .autoIndexSame ∧ blobId sha1 content = expected))) ∧
    ∀ (head : Bytes) (mode eol : Eol) (hashBytes : Nat), mode ≠ .autoIndexSame →
      policyMode mode (some head) true = .ok eol →
      (∀ x ∈ [content, strip content], blobId sha1 x = blobId sha1 head → x = head) →
      WithinBudget sha1 (blobId sha1 head) eol content hashBytes →
        ((bounded sha1 f (some (blobId sha1 head)) eol hashBytes).1 = .ok none ↔
          (smallMode mode head).clean content = head) := by
  refine ⟨fun expected eol hashBytes hbudget => bounded_large sha1 hf hlarge hbudget, ?_⟩
  intro head mode eol hashBytes hmode hpolicy hfree hbudget
  have hraw : blobId sha1 content = blobId sha1 head ↔ content = head :=
    ⟨hfree content mem_cons_self, congrArg _⟩
  have hclean : blobId sha1 (eol.clean content) = blobId sha1 head ↔ eol.clean content = head := by
    refine ⟨fun h => hfree _ ?_ h, congrArg _⟩
    rw [Eol.clean_eq]
    split
    · exact mem_cons_of_mem _ mem_cons_self
    · exact mem_cons_self
  rw [bounded_large sha1 hf hlarge hbudget, hclean, hraw]
  cases policyMode_head hpolicy with
  | inl hsmall =>
    have hother : eol ≠ .autoIndexSame := by
      rw [hsmall, smallMode]
      split
      · exact fun h => by cases h
      · exact hmode
    rw [hsmall] at hother ⊢
    exact ⟨fun h => h.elim id (fun h => absurd h.1 hother), .inl⟩
  | inr hboth =>
    rw [hboth.1, hboth.2, ← clean_both]
    exact ⟨fun h => h.imp id And.right, fun h => h.imp id (And.intro rfl)⟩

/-- A mebibyte of one letter, and a line end. -/
def longLine (lineEnd : Bytes) : Bytes := List.replicate inputLimit 0x78 ++ lineEnd

/-- The SHA-1 of the blob that ends with a line feed. -/
def longLineId : Bytes :=
  [112, 240, 96, 187, 2, 129, 93, 58, 147, 32, 254, 41, 72, 58, 175, 144, 208, 14, 11, 177]

def longLineSha1 (bytes : Bytes) : Bytes :=
  if bytes = blobHeader (inputLimit + 1) ++ longLine [lineFeed] then longLineId else []

theorem strip_letters (count : Nat) (lineEnd : Bytes) :
    strip (List.replicate count 0x78 ++ lineEnd) = List.replicate count 0x78 ++ strip lineEnd := by
  have hother : (0x78 : UInt8) ≠ carriageReturn := by decide
  induction count with
  | zero => rfl
  | succ count ih =>
    rw [replicate_succ, cons_append, strip, if_neg (fun h => hother h.1), ih,
      cons_append]

theorem strip_longLine : strip (longLine [carriageReturn, lineFeed]) = longLine [lineFeed] := by
  have hend : strip [carriageReturn, lineFeed] = [lineFeed] := by decide
  rw [longLine, longLine, strip_letters, hend]

theorem length_longLine (lineEnd : Bytes) :
    (longLine lineEnd).length = inputLimit + lineEnd.length := by
  rw [longLine, length_append, length_replicate]

theorem longLine_gives {first second third : Nat} (h1 : first ≤ captureNanos)
    (h2 : second ≤ captureNanos) (h3 : third ≤ captureNanos) :
    Gives (longLine [carriageReturn, lineFeed])
      [⟨first, some (longLine [carriageReturn])⟩, ⟨second, some [lineFeed]⟩, ⟨third, some []⟩] := by
  have hjoin : longLine [carriageReturn] ++ ([lineFeed] ++ []) =
      longLine [carriageReturn, lineFeed] := by
    rw [longLine, longLine, append_assoc]
    rfl
  have hlong : longLine [carriageReturn] ≠ [] :=
    append_ne_nil_of_right_ne_nil _ (cons_ne_nil _ _)
  rw [← hjoin]
  exact .more h1 hlong (.more h2 (cons_ne_nil _ _) (.done h3))

/-- The file, its line end split between two reads. -/
def longLineFile : File :=
  ⟨some (inputLimit + 2), some (longLine [carriageReturn, lineFeed]),
    [⟨0, some (longLine [carriageReturn])⟩, ⟨1, some [lineFeed]⟩, ⟨2, some []⟩],
    some [⟨3, some (longLine [carriageReturn])⟩, ⟨4, some [lineFeed]⟩, ⟨5, some []⟩]⟩

/-- The file has a carriage return, and the blob in HEAD has none. -/
theorem bounded_unchanged_longLine :
    (bounded longLineSha1 longLineFile (some longLineId) .text 0).1 = .ok none ∧
      (bounded longLineSha1 longLineFile (some (blobId longLineSha1 (longLine [lineFeed]))) .text
        0).1 = .ok none := by
  have hlength : (longLine [carriageReturn, lineFeed]).length = inputLimit + 2 :=
    length_longLine _
  have hstable : longLineFile.Stable (longLine [carriageReturn, lineFeed]) :=
    ⟨congrArg some hlength.symm, rfl, longLine_gives (by decide) (by decide) (by decide),
      _, rfl, longLine_gives (by decide) (by decide) (by decide)⟩
  have hclean : Eol.text.clean (longLine [carriageReturn, lineFeed]) = longLine [lineFeed] := by
    rw [Eol.clean_eq, Eol.converts, beq_self_eq_true, Bool.true_or, if_pos rfl, strip_longLine]
  have hid : blobId longLineSha1 (longLine [lineFeed]) = longLineId := by
    have hlf : (longLine [lineFeed]).length = inputLimit + 1 := length_longLine _
    rw [blobId, hlf, longLineSha1, if_pos rfl]
  have hbudget (expected : Bytes) : WithinBudget longLineSha1 expected .text
      (longLine [carriageReturn, lineFeed]) 0 := by
    rw [WithinBudget, hlength]
    exact ⟨by decide, fun _ _ _ => by decide⟩
  have hpolicy : policyMode .text (some (longLine [lineFeed])) true = .ok .text := by
    rw [policyMode]
    exact if_neg (by decide)
  have hcleaned : blobId longLineSha1 (Eol.text.clean (longLine [carriageReturn, lineFeed])) =
      longLineId := by
    rw [hclean]
    exact hid
  have hboth := bounded_unchanged longLineSha1 hstable (by rw [hlength]; decide)
  have hother : longLineSha1 (blobHeader (inputLimit + 2) ++ longLine [carriageReturn, lineFeed]) =
      [] := by
    refine if_neg (fun h => ?_)
    have hlonger := congrArg List.length h
    rw [length_append, length_append, hlength, length_longLine] at hlonger
    have hheaders :
        (blobHeader (inputLimit + 2)).length = (blobHeader (inputLimit + 1)).length := by
      decide +kernel
    rw [hheaders] at hlonger
    simp at hlonger
  refine ⟨(hboth.1 longLineId .text 0 (hbudget _)).mpr (.inl hcleaned),
    (hboth.2 (longLine [lineFeed]) .text .text 0 (by decide) hpolicy ?_ (hbudget _)).mpr hclean⟩
  intro x hx hequal
  rw [strip_longLine] at hx
  cases hx with
  | head =>
    rw [hid, blobId, hlength, hother] at hequal
    cases hequal
  | tail _ hx => exact mem_singleton.mp hx

end Orkworksd.GitChanges
