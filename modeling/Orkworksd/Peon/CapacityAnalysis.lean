import Orkworksd.Lib.Memo
import Orkworksd.Peon.UsageLimit

/- Capacity analysis of the sessions' output (`capacity_analysis.rs`, and `observe_with` of
   `capacity_state.rs`).

   The evidence of a line is kept by the line's revision and that of the raw buffer by its
   text, for one run generation and one fingerprint of a session at a time. `observed_fresh`
   says that over any sequence of calls nothing that was kept differs from what scanning anew
   would find. The channel that an input carries is left out. -/
namespace Orkworksd.Peon.CapacityAnalysis
open Lib UsageLimit List OrderedMap

variable {patterns : List (List Char)}

/-! ## The source -/

abbrev Evidence : Type := Bool × Option (List Char)

structure CapacityState where
  atUsageLimitLatched : Bool
  analysisRevision : Nat
  analysisExhausted : Bool
  capacityCheckPending : Bool
  outputLinesSeen : Nat
  scanBytesSeen : Nat
  resumeScanOrigin : Option (Nat × Nat)
  pendingCapacityVisibleOnce : Bool
  deriving DecidableEq, Repr

structure CapacityObservation where
  atUsageLimit : Bool
  resetHint : Option (List Char)
  originUpdate : Option (Nat × Nat)
  clearLatch : Bool
  deriving DecidableEq, Repr

def CapacityState.freshOutputSinceOrigin (state : CapacityState) : Bool :=
  (state.resumeScanOrigin.map (fun origin =>
    decide (origin.1 < state.outputLinesSeen ∨ origin.2 < state.scanBytesSeen))).getD false

def CapacityState.staleRecheck (state : CapacityState) : Bool :=
  state.atUsageLimitLatched && !state.capacityCheckPending && state.resumeScanOrigin.isSome &&
    state.freshOutputSinceOrigin

def CapacityState.baseline (state : CapacityState) : Bool :=
  !state.atUsageLimitLatched && !state.capacityCheckPending && state.resumeScanOrigin.isSome

/-- The first line to scan and the raw text to scan. -/
def CapacityState.window (state : CapacityState) (lineCount : Nat) (scanBuf : List Char) :
    Nat × List Char :=
  if state.staleRecheck || state.baseline then
    let origin := state.resumeScanOrigin.getD (0, 0)
    let lineStart := origin.1 - (state.outputLinesSeen - lineCount)
    let byteStart := origin.2 - (state.scanBytesSeen - UsageScan.byteLength scanBuf)
    (min lineStart lineCount,
      (UsageScan.textFrom (min byteStart (UsageScan.byteLength scanBuf)) scanBuf).getD [])
  else (0, scanBuf)

/-- `observe_with`: the scan is given the first line of the window, which goes on to the last
one, and the raw text; what it leaves behind is returned with the observation. -/
def CapacityState.observeWith {σ : Type} (state : CapacityState) (lineCount : Nat)
    (scanBuf : List Char) (scan : Nat → List Char → Evidence × σ) : CapacityObservation × σ :=
  let window := state.window lineCount scanBuf
  let scanned := scan window.1 window.2
  let detected := scanned.1.1
  ({ atUsageLimit :=
      if state.staleRecheck || state.baseline then detected
      else state.atUsageLimitLatched || detected
     resetHint := scanned.1.2
     originUpdate :=
      if state.staleRecheck || (state.baseline && detected) then
        some (state.outputLinesSeen, state.scanBytesSeen)
      else none
     clearLatch := state.staleRecheck && !detected }, scanned.2)

/-- `observe`: direct analysis with the detectors. -/
def CapacityState.observe (alphanumeric : Char → Bool) (state : CapacityState)
    (patterns snapshot : List (List Char)) (scanBuf : List Char) : CapacityObservation :=
  (state.observeWith snapshot.length scanBuf (fun start raw =>
    let lines := snapshot.drop start
    ((detectUsageLimit alphanumeric patterns lines || detectUsageLimitRaw alphanumeric patterns raw,
      (detectUsageLimitHint alphanumeric patterns lines).or
        (detectUsageLimitHintRaw alphanumeric patterns raw)), ()))).1

structure RuntimeIdentity where
  runtimeInstanceId : String
  runGeneration : Nat
  deriving DecidableEq, Repr

structure CapacityInput where
  id : String
  identity : RuntimeIdentity
  fingerprint : Option (List UInt8)
  patterns : Option (List (List Char))
  state : CapacityState
  lines : List (Nat × List Char)
  raw : List Char
  outputAt : Option String
  deriving DecidableEq, Repr

structure PreparedCapacity where
  input : CapacityInput
  observation : Option CapacityObservation
  deriving DecidableEq, Repr

structure LineCache where
  generation : Nat
  fingerprint : Option (List UInt8)
  lines : OrderedMap Nat Evidence
  raw : Option (List Char × Evidence)

def LineCache.empty : LineCache := ⟨0, none, [], none⟩

structure CapacityAnalysisCache where
  sessions : OrderedMap String LineCache

def CapacityAnalysisCache.empty : CapacityAnalysisCache := ⟨[]⟩

section scan
variable (scan : List (List Char) → List Char → Evidence)

/-- The loop over the lines of the window. -/
def lineLoop (patterns : List (List Char)) :
    List (Nat × List Char) → Evidence → OrderedMap Nat Evidence → Evidence × OrderedMap Nat Evidence
  | [], found, table => (found, table)
  | line :: lines, found, table =>
    let evidence := Memo.lookUp table line.1 (scan patterns line.2)
    lineLoop patterns lines
      (found.1 || evidence.1.1, if evidence.1.2.isSome then evidence.1.2 else found.2) evidence.2

/-- The closure that `analyze_with` gives to `observe_with`. -/
def cachedScan (patterns : List (List Char)) (lines : List (Nat × List Char)) (cache : LineCache)
    (start : Nat) (raw : List Char) : Evidence × LineCache :=
  if patterns = [] then ((false, none), cache)
  else
    let found := lineLoop scan patterns (lines.drop start) (false, none) cache.lines
    let cache := { cache with lines := found.2 }
    if raw = [] then (found.1, cache)
    else
      let kept := (cache.raw.filter (fun entry => entry.1 = raw)).getD (raw, scan patterns raw)
      ((found.1.1 || kept.2.1, found.1.2.or kept.2.2), { cache with raw := some kept })

/-- The cache of the input's session, started anew for another generation or fingerprint and
without the lines that are gone. -/
def prepare (sessions : OrderedMap String LineCache) (input : CapacityInput) : LineCache :=
  let cache := (sessions.get input.id).getD .empty
  let cache :=
    if cache.generation ≠ input.identity.runGeneration ∨ cache.fingerprint ≠ input.fingerprint then
      { LineCache.empty with
        generation := input.identity.runGeneration, fingerprint := input.fingerprint }
    else cache
  { cache with lines := Memo.retain ((input.lines.map Prod.fst).contains ·) cache.lines }

def analyzeInput (sessions : OrderedMap String LineCache) (input : CapacityInput) :
    Option CapacityObservation × LineCache :=
  let cache := prepare sessions input
  match input.patterns with
  | none => (none, cache)
  | some patterns =>
    let observed := input.state.observeWith input.lines.length input.raw
      (cachedScan scan patterns input.lines cache)
    (some observed.1, observed.2)

/-- The loop over the inputs, which collects what is returned for each id. -/
def inputLoop : List CapacityInput → OrderedMap String PreparedCapacity →
    OrderedMap String LineCache → OrderedMap String PreparedCapacity × OrderedMap String LineCache
  | [], results, sessions => (results, sessions)
  | input :: inputs, results, sessions =>
    let analyzed := analyzeInput scan sessions input
    inputLoop inputs (results.set input.id ⟨input, analyzed.1⟩) (sessions.set input.id analyzed.2)

def analyzeWith (cache : CapacityAnalysisCache) (inputs : List CapacityInput) :
    OrderedMap String PreparedCapacity × CapacityAnalysisCache :=
  let sessions := Memo.retain ((inputs.map CapacityInput.id).contains ·) cache.sessions
  let analyzed := inputLoop scan inputs [] sessions
  (analyzed.1, ⟨analyzed.2⟩)

/-- What each of a sequence of calls on one cache returns. -/
def analyzeAll : CapacityAnalysisCache → List (List CapacityInput) →
    List (OrderedMap String PreparedCapacity)
  | _, [] => []
  | cache, call :: calls =>
    (analyzeWith scan cache call).1 :: analyzeAll (analyzeWith scan cache call).2 calls

end scan

/-- `analyze`, as often as it is called. -/
def analyze (alphanumeric : Char → Bool) (calls : List (List CapacityInput)) :
    List (OrderedMap String PreparedCapacity) :=
  analyzeAll (capacityLineEvidence alphanumeric) .empty calls

/-! ## Scanning anew -/

/-- What a session's inputs have in common: a revision's text in one run generation, and the
patterns, where there are any, under one fingerprint. -/
structure Determined (inputs : List CapacityInput) : Prop where
  text : ∀ a ∈ inputs, ∀ b ∈ inputs, a.id = b.id →
    a.identity.runGeneration = b.identity.runGeneration →
    ∀ revision t t', (revision, t) ∈ a.lines → (revision, t') ∈ b.lines → t = t'
  patterns : ∀ a ∈ inputs, ∀ b ∈ inputs, a.id = b.id → a.fingerprint = b.fingerprint →
    ∀ p q, a.patterns = some p → b.patterns = some q → p ≠ [] → q ≠ [] → p = q

section fresh
variable (scan : List (List Char) → List Char → Evidence)

variable {call : List CapacityInput}

def freshLoop (patterns : List (List Char)) (lines : List (List Char)) (found : Evidence) :
    Evidence :=
  lines.foldl (fun found text =>
    (found.1 || (scan patterns text).1,
      if (scan patterns text).2.isSome then (scan patterns text).2 else found.2)) found

theorem freshLoop_cons (patterns : List (List Char)) (text : List Char) (lines : List (List Char))
    (found : Evidence) : freshLoop scan patterns (text :: lines) found =
      freshLoop scan patterns lines (found.1 || (scan patterns text).1,
        if (scan patterns text).2.isSome then (scan patterns text).2 else found.2) := rfl

/-- The closure of `analyze_with`, with nothing kept. -/
def freshScan (patterns : List (List Char)) (snapshot : List (List Char)) (start : Nat)
    (raw : List Char) : Evidence :=
  if patterns = [] then (false, none)
  else
    let found := freshLoop scan patterns (snapshot.drop start) (false, none)
    if raw = [] then found
    else (found.1 || (scan patterns raw).1, found.2.or (scan patterns raw).2)

def freshObservation (input : CapacityInput) : Option CapacityObservation :=
  input.patterns.map (fun patterns => (input.state.observeWith input.lines.length input.raw
    (fun start raw => (freshScan scan patterns (input.lines.map Prod.snd) start raw, ()))).1)

/-- The input is of the session, the generation and the fingerprint that the cache is of. -/
def Matches (id : String) (cache : LineCache) (input : CapacityInput) : Prop :=
  input.id = id ∧ input.identity.runGeneration = cache.generation ∧
    input.fingerprint = cache.fingerprint

/-- What is kept is what scanning an input that matches would find. -/
def Kept (inputs : List CapacityInput) (id : String) (cache : LineCache) : Prop :=
  Memo.Holds (fun revision evidence => ∀ b ∈ inputs, Matches id cache b →
    ∀ p, b.patterns = some p → p ≠ [] → ∀ t, (revision, t) ∈ b.lines → evidence = scan p t)
    cache.lines ∧
  ∀ text evidence, cache.raw = some (text, evidence) → ∀ b ∈ inputs, Matches id cache b →
    ∀ p, b.patterns = some p → p ≠ [] → evidence = scan p text

variable {scan} {inputs : List CapacityInput} {sessions : OrderedMap String LineCache}

theorem lineLoop_fresh {Spec : Nat → Evidence → Prop} (lines : List (Nat × List Char))
    (found : Evidence) {table : OrderedMap Nat Evidence}
    (hspec : ∀ line ∈ lines, ∀ evidence, Spec line.1 evidence ↔ evidence = scan patterns line.2)
    (htable : Memo.Holds Spec table) :
    (lineLoop scan patterns lines found table).1 =
        freshLoop scan patterns (lines.map Prod.snd) found ∧
      Memo.Holds Spec (lineLoop scan patterns lines found table).2 := by
  induction lines generalizing found table with
  | nil => exact ⟨rfl, htable⟩
  | cons line lines ih =>
    have hline := hspec line mem_cons_self
    obtain ⟨hevidence, hrest⟩ := htable.lookUp ((hline (scan patterns line.2)).mpr rfl)
    have heq := (hline _).mp hevidence
    rw [lineLoop, heq]
    exact ih _ (fun l hl => hspec l (mem_cons_of_mem line hl)) hrest

variable {cache : LineCache} {p : List (List Char)} {a : CapacityInput}

theorem line_spec (hdet : Determined inputs) (ha : a ∈ inputs) (hmatches : Matches a.id cache a)
    (hp : a.patterns = some p) (hne : p ≠ []) {line : Nat × List Char} (hline : line ∈ a.lines)
    (evidence : Evidence) :
    (∀ b ∈ inputs, Matches a.id cache b → ∀ q, b.patterns = some q → q ≠ [] →
      ∀ t, (line.1, t) ∈ b.lines → evidence = scan q t) ↔ evidence = scan p line.2 := by
  constructor
  · intro h
    exact h a ha hmatches p hp hne line.2 hline
  · intro h b hb hb' q hq hqne t ht
    obtain ⟨hid, hgeneration, hfingerprint⟩ := hb'
    obtain ⟨-, hgeneration', hfingerprint'⟩ := hmatches
    have hpq := hdet.patterns a ha b hb hid.symm (hfingerprint'.trans hfingerprint.symm) p q hp hq
      hne hqne
    have htext := hdet.text a ha b hb hid.symm (hgeneration'.trans hgeneration.symm) line.1 line.2 t
      hline ht
    rw [h, hpq, htext]

theorem raw_spec (hdet : Determined inputs) (ha : a ∈ inputs) (hmatches : Matches a.id cache a)
    (hp : a.patterns = some p) (hne : p ≠ []) (text : List Char) (evidence : Evidence) :
    (∀ b ∈ inputs, Matches a.id cache b → ∀ q, b.patterns = some q → q ≠ [] →
      evidence = scan q text) ↔ evidence = scan p text := by
  constructor
  · intro h
    exact h a ha hmatches p hp hne
  · intro h b hb hb' q hq hqne
    have hfingerprint := hmatches.2.2.trans hb'.2.2.symm
    rw [h, hdet.patterns a ha b hb hb'.1.symm hfingerprint p q hp hq hne hqne]

theorem cachedScan_fresh (hdet : Determined inputs) (ha : a ∈ inputs)
    (hkept : Kept scan inputs a.id cache) (hmatches : Matches a.id cache a)
    (hp : a.patterns = some p) (start : Nat) (raw : List Char) :
    (cachedScan scan p a.lines cache start raw).1 =
        freshScan scan p (a.lines.map Prod.snd) start raw ∧
      Kept scan inputs a.id (cachedScan scan p a.lines cache start raw).2 := by
  rw [cachedScan, freshScan]
  by_cases hne : p = []
  · rw [if_pos hne, if_pos hne]
    exact ⟨rfl, hkept⟩
  · rw [if_neg hne, if_neg hne]
    obtain ⟨hlines, hraw⟩ := hkept
    obtain ⟨hfound, htable⟩ := lineLoop_fresh (a.lines.drop start) (false, none)
      (fun line hline => line_spec hdet ha hmatches hp hne (mem_of_mem_drop hline)) hlines
    rw [map_drop] at hfound
    dsimp only
    rw [hfound]
    by_cases hempty : raw = []
    · rw [if_pos hempty, if_pos hempty]
      exact ⟨rfl, htable, hraw⟩
    · rw [if_neg hempty, if_neg hempty]
      -- the raw text's evidence is kept only with the text
      have hkept' : ((cache.raw.filter (fun entry => entry.1 = raw)).getD (raw, scan p raw)) =
          (raw, scan p raw) := by
        cases hcache : cache.raw with
        | none => rfl
        | some entry =>
          by_cases heq : entry.1 = raw
          · have hevidence := (raw_spec hdet ha hmatches hp hne entry.1 entry.2).mp
              (hraw entry.1 entry.2 hcache)
            show (if decide (entry.1 = raw) = true then some entry else none).getD _ = _
            rw [if_pos (decide_eq_true heq), Option.getD_some, ← heq, ← hevidence]
          · show (if decide (entry.1 = raw) = true then some entry else none).getD _ = _
            rw [if_neg (fun h => heq (of_decide_eq_true h))]
            rfl
      rw [hkept']
      refine ⟨rfl, htable, fun text evidence hsome => ?_⟩
      obtain ⟨rfl, rfl⟩ := Prod.mk.inj (Option.some.inj hsome)
      exact (raw_spec hdet ha hmatches hp hne raw (scan p raw)).mpr rfl

/-! ## Calls -/

theorem prepare_kept (hsessions : Memo.Holds (Kept scan inputs) sessions) (a : CapacityInput) :
    Kept scan inputs a.id (prepare sessions a) ∧ Matches a.id (prepare sessions a) a := by
  have hempty (generation : Nat) (fingerprint : Option (List UInt8)) :
      Kept scan inputs a.id { LineCache.empty with generation, fingerprint } :=
    ⟨Memo.holds_nil, fun text evidence h => absurd h (Option.some_ne_none _).symm⟩
  have hcache : Kept scan inputs a.id ((sessions.get a.id).getD .empty) := by
    cases hget : sessions.get a.id with
    | none => exact hempty 0 none
    | some cache => exact hsessions a.id cache hget
  rw [prepare]
  split
  · exact ⟨⟨(hempty _ _).1.retain ((a.lines.map Prod.fst).contains ·), (hempty _ _).2⟩, rfl, rfl, rfl⟩
  · next hsame =>
    obtain ⟨hgeneration, hfingerprint⟩ := not_or.mp hsame
    exact ⟨⟨hcache.1.retain _, hcache.2⟩, rfl, (of_not_not hgeneration).symm,
      (of_not_not hfingerprint).symm⟩

theorem analyzeInput_fresh (hdet : Determined inputs)
    (hsessions : Memo.Holds (Kept scan inputs) sessions) (ha : a ∈ inputs) :
    (analyzeInput scan sessions a).1 = freshObservation scan a ∧
      Kept scan inputs a.id (analyzeInput scan sessions a).2 := by
  obtain ⟨hkept, hmatches⟩ := prepare_kept hsessions a
  rw [analyzeInput, freshObservation]
  cases hp : a.patterns with
  | none => exact ⟨rfl, hkept⟩
  | some p =>
    -- the scan is called once, with the window
    have hscan := cachedScan_fresh hdet ha hkept hmatches hp
      (a.state.window a.lines.length a.raw).1 (a.state.window a.lines.length a.raw).2
    rw [Option.map_some]
    refine ⟨congrArg some ?_, hscan.2⟩
    simp only [CapacityState.observeWith]
    rw [hscan.1]

/-- What a call has returned for each id: an input of the call, observed as if scanned anew. -/
def ReturnsFresh (scan : List (List Char) → List Char → Evidence) (call : List CapacityInput)
    (results : OrderedMap String PreparedCapacity) : Prop :=
  Memo.Holds (fun id prepared => prepared.input ∈ call ∧ prepared.input.id = id ∧
    prepared.observation = freshObservation scan prepared.input) results

theorem inputLoop_fresh (hdet : Determined inputs) {seen rest : List CapacityInput}
    (hcall : call = seen ++ rest) (hinputs : ∀ a ∈ call, a ∈ inputs)
    {results : OrderedMap String PreparedCapacity} (hresults : ReturnsFresh scan call results)
    (hseen : ∀ a ∈ seen, a.id ∈ results.keys) (hsessions : Memo.Holds (Kept scan inputs) sessions) :
    ReturnsFresh scan call (inputLoop scan rest results sessions).1 ∧
      (∀ a ∈ call, a.id ∈ (inputLoop scan rest results sessions).1.keys) ∧
      Memo.Holds (Kept scan inputs) (inputLoop scan rest results sessions).2 := by
  induction rest generalizing seen results sessions with
  | nil =>
    rw [append_nil] at hcall
    exact ⟨hresults, hcall ▸ hseen, hsessions⟩
  | cons a rest ih =>
    have ha : a ∈ call := hcall ▸ mem_append_right seen mem_cons_self
    obtain ⟨hfresh, hkept⟩ := analyzeInput_fresh hdet hsessions (hinputs a ha)
    refine ih (hcall.trans (append_cons seen a rest)) (hresults.set ⟨ha, rfl, hfresh⟩)
      (fun b hb => ?_) (hsessions.set hkept)
    rw [← get_isSome_iff, get_set]
    split
    · rfl
    · next hne =>
      rw [get_isSome_iff]
      obtain hb | hb := mem_append.mp hb
      · exact hseen b hb
      · rw [mem_singleton.mp hb] at hne
        exact absurd rfl hne

theorem analyzeWith_fresh (hdet : Determined inputs) (hinputs : ∀ a ∈ call, a ∈ inputs)
    {cache : CapacityAnalysisCache} (hsessions : Memo.Holds (Kept scan inputs) cache.sessions) :
    ReturnsFresh scan call (analyzeWith scan cache call).1 ∧
      (∀ a ∈ call, a.id ∈ (analyzeWith scan cache call).1.keys) ∧
      Memo.Holds (Kept scan inputs) (analyzeWith scan cache call).2.sessions :=
  inputLoop_fresh hdet (nil_append call).symm hinputs Memo.holds_nil
    (fun _ h => absurd h not_mem_nil) (hsessions.retain _)

/-- And so do all of them. -/
theorem analyzeAll_fresh (hdet : Determined inputs) {calls : List (List CapacityInput)}
    (hinputs : ∀ a ∈ calls.flatten, a ∈ inputs) {cache : CapacityAnalysisCache}
    (hsessions : Memo.Holds (Kept scan inputs) cache.sessions) :
    List.Forall₂ (fun call results => ReturnsFresh scan call results ∧
      ∀ a ∈ call, a.id ∈ results.keys) calls (analyzeAll scan cache calls) := by
  induction calls generalizing cache with
  | nil => exact .nil
  | cons call calls ih =>
    rw [flatten_cons] at hinputs
    obtain ⟨hfresh, hkeys, hnext⟩ := analyzeWith_fresh hdet
      (fun a ha => hinputs a (mem_append_left _ ha)) hsessions
    exact .cons ⟨hfresh, hkeys⟩ (ih (fun a ha => hinputs a (mem_append_right call ha)) hnext)

end fresh

/-! ## The detectors -/

section detectors
variable (alphanumeric : Char → Bool)

/-- `observe`, where a line or a raw text without characters is no evidence. -/
def CapacityState.observeText (state : CapacityState) (patterns snapshot : List (List Char))
    (scanBuf : List Char) : CapacityObservation :=
  (state.observeWith snapshot.length scanBuf (fun start raw =>
    let lines := (snapshot.drop start).filter (fun line => line ≠ [])
    ((detectUsageLimit alphanumeric patterns lines ||
        (raw ≠ [] && detectUsageLimitRaw alphanumeric patterns raw),
      (detectUsageLimitHint alphanumeric patterns lines).or
        (detectUsageLimitHintRaw alphanumeric patterns raw)), ()))).1

variable {alphanumeric}

theorem freshLoop_detect (patterns lines : List (List Char)) (found : Evidence) :
    freshLoop (capacityLineEvidence alphanumeric) patterns lines found =
      (found.1 || detectUsageLimit alphanumeric patterns (lines.filter (fun line => line ≠ [])),
        (detectUsageLimitHint alphanumeric patterns (lines.filter (fun line => line ≠ []))).or
          found.2) := by
  rw [detectUsageLimit_eq, detectUsageLimitHint_eq]
  induction lines generalizing found with
  | nil => exact Prod.ext (Bool.or_false _).symm rfl
  | cons line lines ih =>
    rw [freshLoop_cons, ih]
    by_cases hline : line = []
    · have hnone : capacityLineEvidence alphanumeric patterns line = (false, none) :=
        if_pos (.inr hline)
      rw [hnone, filter_cons_of_neg (by simpa using hline)]
      exact Prod.ext (congrArg (· || _) (Bool.or_false _)) rfl
    · rw [capacityLineEvidence_eq hline, filter_cons_of_pos (by simpa using hline),
        any_cons, reverse_cons, List.findSome?_append, List.findSome?_singleton,
        Bool.or_assoc, Option.or_assoc]
      cases detectUsageLimitHintRaw alphanumeric patterns line <;> rfl

theorem freshScan_detect (patterns snapshot : List (List Char)) (start : Nat) (raw : List Char) :
    freshScan (capacityLineEvidence alphanumeric) patterns snapshot start raw =
      (detectUsageLimit alphanumeric patterns ((snapshot.drop start).filter (fun line => line ≠ [])) ||
        (raw ≠ [] && detectUsageLimitRaw alphanumeric patterns raw),
      (detectUsageLimitHint alphanumeric patterns
        ((snapshot.drop start).filter (fun line => line ≠ []))).or
        (detectUsageLimitHintRaw alphanumeric patterns raw)) := by
  rw [freshScan]
  by_cases hp : patterns = []
  · rw [if_pos hp, detectUsageLimit, detectUsageLimitRaw, detectUsageLimitHint,
      detectUsageLimitHintRaw, if_pos hp, if_pos hp, if_pos hp, if_pos hp, Bool.and_false]
    rfl
  · rw [if_neg hp, freshLoop_detect]
    by_cases hraw : raw = []
    · rw [if_pos hraw, hraw, detectUsageLimitHintRaw_nil]
      exact Prod.ext (Bool.false_or _ |>.trans (Bool.or_false _).symm) rfl
    · rw [if_neg hraw, capacityLineEvidence_eq hraw, Option.or_none, Bool.false_or,
        decide_eq_true hraw, Bool.true_and]

theorem freshObservation_detect (input : CapacityInput) :
    freshObservation (capacityLineEvidence alphanumeric) input = input.patterns.map (fun patterns =>
      input.state.observeText alphanumeric patterns (input.lines.map Prod.snd) input.raw) := by
  refine Option.map_congr (fun patterns _ => ?_)
  simp only [CapacityState.observeText, freshScan_detect, length_map]

theorem observeText_eq (h : [] ∉ patterns) (state : CapacityState) (snapshot : List (List Char))
    (scanBuf : List Char) :
    state.observeText alphanumeric patterns snapshot scanBuf =
      state.observe alphanumeric patterns snapshot scanBuf := by
  have hraw (raw : List Char) : (raw ≠ [] && detectUsageLimitRaw alphanumeric patterns raw) =
      detectUsageLimitRaw alphanumeric patterns raw := by
    by_cases hraw : raw = []
    · rw [hraw, detectUsageLimitRaw_nil h, Bool.and_false]
    · rw [decide_eq_true hraw, Bool.true_and]
  have hdetect (lines : List (List Char)) :
      detectUsageLimit alphanumeric patterns (lines.filter (fun line => line ≠ [])) =
        detectUsageLimit alphanumeric patterns lines := by
    rw [detectUsageLimit_eq, detectUsageLimit_eq, any_filter]
    exact congrArg lines.any (funext hraw)
  have hhint (lines : List (List Char)) :
      detectUsageLimitHint alphanumeric patterns (lines.filter (fun line => line ≠ [])) =
        detectUsageLimitHint alphanumeric patterns lines := by
    rw [detectUsageLimitHint_eq, detectUsageLimitHint_eq, ← filter_reverse]
    generalize lines.reverse = lines
    induction lines with
    | nil => rfl
    | cons line lines ih =>
      by_cases hline : line = []
      · rw [hline, filter_cons_of_neg (by simp), ih, List.findSome?_cons,
          detectUsageLimitHintRaw_nil]
      · rw [filter_cons_of_pos (by simpa using hline), List.findSome?_cons, ih,
          List.findSome?_cons]
  simp only [CapacityState.observeText, CapacityState.observe, hdetect, hhint, hraw]

variable (alphanumeric)

/-- What a call returns: for each of its inputs' ids an input of that id, and what direct
analysis of its texts observes. -/
def Returned (call : List CapacityInput) (results : OrderedMap String PreparedCapacity) : Prop :=
  (∀ input ∈ call, ∃ prepared, results.get input.id = some prepared) ∧
  ∀ id prepared, results.get id = some prepared →
    prepared.input ∈ call ∧ prepared.input.id = id ∧
    prepared.observation = prepared.input.patterns.map (fun patterns =>
      prepared.input.state.observeText alphanumeric patterns (prepared.input.lines.map Prod.snd)
        prepared.input.raw) ∧
    ∀ patterns, prepared.input.patterns = some patterns → [] ∉ patterns →
      prepared.observation = some (prepared.input.state.observe alphanumeric patterns
        (prepared.input.lines.map Prod.snd) prepared.input.raw)

/-- Over any sequence of calls on one cache, each observation is that of direct analysis. -/
theorem observed_fresh (calls : List (List CapacityInput)) (h : Determined calls.flatten) :
    List.Forall₂ (Returned alphanumeric) calls (analyze alphanumeric calls) := by
  have hall : List.Forall₂ (fun call results =>
      ReturnsFresh (capacityLineEvidence alphanumeric) call results ∧
        ∀ a ∈ call, a.id ∈ results.keys) calls (analyze alphanumeric calls) :=
    analyzeAll_fresh h (fun _ ha => ha) Memo.holds_nil
  refine hall.imp (fun call results hreturned => ?_)
  obtain ⟨hfresh, hkeys⟩ := hreturned
  refine ⟨fun input hinput => ?_, fun id prepared hget => ?_⟩
  · exact Option.isSome_iff_exists.mp (get_isSome_iff.mpr (hkeys input hinput))
  · obtain ⟨hinput, hid, hobservation⟩ := hfresh id prepared hget
    rw [freshObservation_detect] at hobservation
    refine ⟨hinput, hid, hobservation, fun patterns hpatterns hempty => ?_⟩
    rw [hobservation, hpatterns, Option.map_some, observeText_eq hempty]

end detectors

/-! ## Sample calls -/

def unlatched : CapacityState := ⟨false, 0, false, false, 0, 0, none, false⟩

def sampleInput (patterns : List String) (lines : List (Nat × String)) : CapacityInput where
  id := "s1"
  identity := ⟨"r1", 1⟩
  fingerprint := some [1]
  patterns := some (patterns.map String.toList)
  state := unlatched
  lines := lines.map (fun line => (line.1, line.2.toList))
  raw := []
  outputAt := none

/-- Two calls, the second with a line more. -/
def sampleCalls : List (List CapacityInput) :=
  [[sampleInput ["usage limit reached"] [(1, "ready")]],
   [sampleInput ["usage limit reached"] [(1, "ready"), (2, "usage limit reached")]]]

def sampleText (revision : Nat) : List Char :=
  if revision = 1 then "ready".toList else "usage limit reached".toList

theorem sampleCalls_determined : Determined sampleCalls.flatten := by
  have htext : ∀ a ∈ sampleCalls.flatten, ∀ line ∈ a.lines, line.2 = sampleText line.1 := by
    decide
  have hpatterns : ∀ a ∈ sampleCalls.flatten, a.patterns = some ["usage limit reached".toList] := by
    decide
  constructor
  · intro a ha b hb _ _ revision t t' ht ht'
    exact (htext a ha _ ht).trans (htext b hb _ ht').symm
  · intro a ha b hb _ _ p q hp hq _ _
    rw [hpatterns a ha] at hp
    rw [hpatterns b hb] at hq
    exact Option.some.inj (hp.symm.trans hq)

theorem observed_fresh_sample : Determined sampleCalls.flatten ∧
    List.Forall₂ (Returned Char.isAlphanum) sampleCalls (analyze Char.isAlphanum sampleCalls) :=
  ⟨sampleCalls_determined, observed_fresh Char.isAlphanum sampleCalls sampleCalls_determined⟩

/-- One call with an empty line, for which an empty pattern is configured. -/
def emptyCall : List CapacityInput := [sampleInput [""] [(1, "")]]

theorem emptyCall_determined : Determined [emptyCall].flatten := by
  have htext : ∀ a ∈ [emptyCall].flatten, ∀ line ∈ a.lines, line.2 = [] := by
    decide
  have hpatterns : ∀ a ∈ [emptyCall].flatten, a.patterns = some [[]] := by
    decide
  constructor
  · intro a ha b hb _ _ revision t t' ht ht'
    exact (htext a ha _ ht).trans (htext b hb _ ht').symm
  · intro a ha b hb _ _ p q hp hq _ _
    rw [hpatterns a ha] at hp
    rw [hpatterns b hb] at hq
    exact Option.some.inj (hp.symm.trans hq)

/-- The detectors take the empty line for a banner, and the analysis does not. -/
theorem empty_line_differs : ¬∀ (alphanumeric : Char → Bool) (calls : List (List CapacityInput)),
    Determined calls.flatten → List.Forall₂ (fun _ results => ∀ id prepared,
      results.get id = some prepared →
      prepared.observation = prepared.input.patterns.map (fun patterns =>
        prepared.input.state.observe alphanumeric patterns (prepared.input.lines.map Prod.snd)
          prepared.input.raw)) calls (analyze alphanumeric calls) := by
  intro h
  have hcall := h Char.isAlphanum [emptyCall] emptyCall_determined
  cases hcall with
  | cons hfirst _ =>
    have hobservation := hfirst "s1" ⟨sampleInput [""] [(1, "")], some ⟨false, none, none, false⟩⟩
      (by decide)
    exact absurd hobservation (by decide)

end Orkworksd.Peon.CapacityAnalysis
