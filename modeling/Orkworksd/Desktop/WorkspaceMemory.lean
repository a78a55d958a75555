import Mathlib.Algebra.Order.BigOperators.Group.List
import Mathlib.Algebra.Order.Ring.Nat
import Orkworksd.Lib.JsonPretty

/- The desktop's workspace history file (`workspaceMemory.ts`): the record, what is written of
   it, and what is read from a file of any of its three formats.

   The paths are texts of whole characters. `parse` is the decoding of the bytes and
   `JSON.parse`, with a number as the text `JSON.stringify` writes for it; what is assumed of it
   is `ReadsBack`. `canonical` is `canonicalWorkspacePath`, the file system's answer.

   `bounded_prefix` and `bounded_longest` say what the trimming loop leaves, `length_serialized`
   how many bytes a record takes. -/
namespace Orkworksd.Desktop.WorkspaceMemory
open Lib List

variable {paths : List String}

/-! ## The source -/

inductive DiagnosticCode where
  | corruptHistory
  | historyLockTimeout
  | historyWriteFailed
  | pinLimitReached
  deriving DecidableEq, Repr

structure WorkspaceMemoryDiagnostic where
  code : DiagnosticCode
  message : String
  deriving DecidableEq, Repr

/-- What is stored. The version is always 2. -/
structure StoredWorkspaceMemory where
  revision : Nat
  lastWorkspacePath : Option String
  recentWorkspacePaths : List String
  pinnedWorkspacePaths : List String
  deriving DecidableEq, Repr

structure AppWorkspaceMemory where
  storedMemory : StoredWorkspaceMemory
  diagnostic : Option WorkspaceMemoryDiagnostic
  deriving DecidableEq, Repr

def maximumRecentPaths : Nat := 20

def maximumPinnedPaths : Nat := 50

def maximumSerializedBytes : Nat := 64 * 1024

def maximumLegacyRecentPaths : Nat := 10

def maximumLegacySourceBytes : Nat := 2 * 1024 * 1024

/-- `Number.MAX_SAFE_INTEGER`. -/
def maximumSafeInteger : Nat := 9007199254740991

def corruptDiagnostic : WorkspaceMemoryDiagnostic where
  code := .corruptHistory
  message := "Workspace history is corrupt or unreadable and was left unchanged."

def emptyMemory : AppWorkspaceMemory := ⟨⟨0, none, [], []⟩, none⟩

def withDiagnostic (memory : AppWorkspaceMemory) (diagnostic : WorkspaceMemoryDiagnostic) :
    AppWorkspaceMemory :=
  { memory with diagnostic := some diagnostic }

def corruptMemory : AppWorkspaceMemory := withDiagnostic emptyMemory corruptDiagnostic

/-- The record as the object that is stored. -/
def StoredWorkspaceMemory.value (memory : StoredWorkspaceMemory) : Json :=
  .object [("version", Json.ofNat 2), ("revision", Json.ofNat memory.revision),
    ("lastWorkspacePath", Json.ofOption Json.string memory.lastWorkspacePath),
    ("recentWorkspacePaths", Json.texts memory.recentWorkspacePaths),
    ("pinnedWorkspacePaths", Json.texts memory.pinnedWorkspacePaths)]

/-- The bytes of `serializedMemory`. -/
def serializedMemory (memory : StoredWorkspaceMemory) : List UInt8 :=
  JsonText.encode (memory.value.pretty 0 ++ ['\n'])

def memoryFits (memory : StoredWorkspaceMemory) : Bool :=
  decide ((serializedMemory memory).length ≤ maximumSerializedBytes)

/-- The loop of `boundedPaths`: the last path goes while there are two and it does not fit. -/
def trimmed (fits : List String → Bool) (paths : List String) : List String :=
  if 1 < paths.length ∧ fits paths = false then trimmed fits paths.dropLast else paths
termination_by paths.length
decreasing_by
  rw [length_dropLast]
  omega

/-- What `boundedPaths` starts from: the last path first unless it is pinned, each path once. -/
def deduplicated (lastWorkspacePath : Option String) (paths pinnedWorkspacePaths : List String) :
    List String :=
  (lastWorkspacePath.toList.filter (fun path => path ∉ pinnedWorkspacePaths) ++ paths).eraseDups

/-- Whether the record with these recent paths, the `candidate` of `boundedPaths`, fits. -/
def candidateFits (lastWorkspacePath : Option String) (pinnedWorkspacePaths : List String)
    (revision : Nat) (recentWorkspacePaths : List String) : Bool :=
  memoryFits ⟨revision, lastWorkspacePath, recentWorkspacePaths, pinnedWorkspacePaths⟩

def boundedPaths (lastWorkspacePath : Option String) (paths pinnedWorkspacePaths : List String)
    (revision : Nat) : Option (List String) :=
  let fits := candidateFits lastWorkspacePath pinnedWorkspacePaths revision
  let bounded := trimmed fits
    ((deduplicated lastWorkspacePath paths pinnedWorkspacePaths).take maximumRecentPaths)
  if fits bounded then some bounded else none

structure LegacyStoredWorkspaceMemory where
  lastWorkspacePath : Option String
  recentWorkspacePaths : List String

structure V1StoredWorkspaceMemory where
  revision : Nat
  lastWorkspacePath : Option String
  recentWorkspacePaths : List String

def lastPath (m : Members) : Option (Option String) :=
  Json.field m "lastWorkspacePath" (Json.nullable Json.text)

def recentPaths (m : Members) : Option (List String) :=
  Json.field m "recentWorkspacePaths" (Json.list Json.text)

/-- A number member that is a safe integer and not negative. -/
def safeInteger (m : Members) (key : String) : Option Nat :=
  Json.field m key (Json.natural (maximumSafeInteger + 1))

def validLegacyStoredMemory : Json → Option LegacyStoredWorkspaceMemory :=
  Json.record ["lastWorkspacePath", "recentWorkspacePaths"] fun m => do
    let lastWorkspacePath ← lastPath m
    let recentWorkspacePaths ← recentPaths m
    if recentWorkspacePaths.length ≤ maximumLegacyRecentPaths then
      some ⟨lastWorkspacePath, recentWorkspacePaths⟩
    else none

def canonicalizedLegacyPath (canonical : String → Option String) (path : String) : String :=
  (canonical path).getD path

/-- Only the last path of a legacy file is kept. -/
def migratedLegacyMemory (canonical : String → Option String)
    (legacy : LegacyStoredWorkspaceMemory) : AppWorkspaceMemory :=
  let lastWorkspacePath := legacy.lastWorkspacePath.map (canonicalizedLegacyPath canonical)
  match boundedPaths lastWorkspacePath [] [] 0 with
  | none => corruptMemory
  | some bounded => ⟨⟨0, lastWorkspacePath, bounded, []⟩, none⟩

/-- What is checked of the values of a version 1 record. -/
def V1StoredWorkspaceMemory.Valid (v1 : V1StoredWorkspaceMemory) : Prop :=
  v1.recentWorkspacePaths.length ≤ maximumRecentPaths ∧ v1.recentWorkspacePaths.Nodup ∧
    ∀ path ∈ v1.lastWorkspacePath, path ∈ v1.recentWorkspacePaths

instance (v1 : V1StoredWorkspaceMemory) : Decidable v1.Valid :=
  inferInstanceAs (Decidable (_ ∧ _))

def validV1StoredMemory : Json → Option V1StoredWorkspaceMemory :=
  Json.record ["lastWorkspacePath", "recentWorkspacePaths", "revision", "version"] fun m => do
    let version ← safeInteger m "version"
    let revision ← safeInteger m "revision"
    let lastWorkspacePath ← lastPath m
    let recentWorkspacePaths ← recentPaths m
    let v1 : V1StoredWorkspaceMemory := ⟨revision, lastWorkspacePath, recentWorkspacePaths⟩
    if version = 1 ∧ v1.Valid then some v1 else none

def migratedV1Memory (v1 : V1StoredWorkspaceMemory) : AppWorkspaceMemory :=
  ⟨⟨v1.revision, v1.lastWorkspacePath, v1.recentWorkspacePaths, []⟩, none⟩

/-- What is checked of the values of a stored record: no list too long, no path twice, and the
last path in one of the lists. -/
structure StoredWorkspaceMemory.Valid (memory : StoredWorkspaceMemory) : Prop where
  recentCount : memory.recentWorkspacePaths.length ≤ maximumRecentPaths
  pinnedCount : memory.pinnedWorkspacePaths.length ≤ maximumPinnedPaths
  recentOnce : memory.recentWorkspacePaths.Nodup
  pinnedOnce : memory.pinnedWorkspacePaths.Nodup
  apart : ∀ path ∈ memory.recentWorkspacePaths, path ∉ memory.pinnedWorkspacePaths
  lastListed : ∀ path ∈ memory.lastWorkspacePath,
    path ∈ memory.recentWorkspacePaths ∨ path ∈ memory.pinnedWorkspacePaths

instance (memory : StoredWorkspaceMemory) : Decidable memory.Valid :=
  decidable_of_iff
    (memory.recentWorkspacePaths.length ≤ maximumRecentPaths ∧
      memory.pinnedWorkspacePaths.length ≤ maximumPinnedPaths ∧
      memory.recentWorkspacePaths.Nodup ∧ memory.pinnedWorkspacePaths.Nodup ∧
      (∀ path ∈ memory.recentWorkspacePaths, path ∉ memory.pinnedWorkspacePaths) ∧
      ∀ path ∈ memory.lastWorkspacePath,
        path ∈ memory.recentWorkspacePaths ∨ path ∈ memory.pinnedWorkspacePaths)
    ⟨fun ⟨a, b, c, d, e, f⟩ => ⟨a, b, c, d, e, f⟩,
      fun ⟨a, b, c, d, e, f⟩ => ⟨a, b, c, d, e, f⟩⟩

def validStoredMemory : Json → Option StoredWorkspaceMemory :=
  Json.record ["version", "revision", "lastWorkspacePath", "recentWorkspacePaths",
    "pinnedWorkspacePaths"] fun m => do
    let version ← safeInteger m "version"
    let revision ← safeInteger m "revision"
    let lastWorkspacePath ← lastPath m
    let recentWorkspacePaths ← recentPaths m
    let pinnedWorkspacePaths ← Json.field m "pinnedWorkspacePaths" (Json.list Json.text)
    let memory : StoredWorkspaceMemory :=
      ⟨revision, lastWorkspacePath, recentWorkspacePaths, pinnedWorkspacePaths⟩
    if version = 2 ∧ memory.Valid then some memory else none

/-- What is made of a file's value, given how many bytes the file has. -/
def readParsed (canonical : String → Option String) (byteLength : Nat) (parsed : Json) :
    AppWorkspaceMemory :=
  match validStoredMemory parsed with
  | some memory =>
    if byteLength > maximumSerializedBytes ∨ memoryFits memory = false then corruptMemory
    else ⟨memory, none⟩
  | none =>
    match validV1StoredMemory parsed with
    | some v1 => if byteLength > maximumSerializedBytes then corruptMemory else migratedV1Memory v1
    | none =>
      match validLegacyStoredMemory parsed with
      | some legacy => migratedLegacyMemory canonical legacy
      | none => corruptMemory

/-- `readStoredWorkspaceMemory` on the bytes of the file, if there is one. -/
def readStoredWorkspaceMemory (parse : List UInt8 → Option Json)
    (canonical : String → Option String) : Option (List UInt8) → AppWorkspaceMemory
  | none => emptyMemory
  | some source =>
    if source.length > maximumLegacySourceBytes then corruptMemory
    else match parse source with
      | none => corruptMemory
      | some parsed => readParsed canonical source.length parsed

/-- What is assumed of the decoder and `JSON.parse`: what `JSON.stringify` wrote is read back. -/
def ReadsBack (parse : List UInt8 → Option Json) : Prop :=
  ∀ memory : StoredWorkspaceMemory, memory.revision ≤ maximumSafeInteger →
    parse (serializedMemory memory) = some memory.value

/-! ## Distinct paths -/

section Distinct

variable {α : Type} [DecidableEq α]

theorem nodup_eraseDups (l : List α) : l.eraseDups.Nodup := by
  cases l with
  | nil => exact .nil
  | cons a l =>
    rw [eraseDups_cons]
    refine nodup_cons.mpr ⟨?_, nodup_eraseDups _⟩
    simp [mem_eraseDups]
termination_by l.length
decreasing_by
  show (l.filter (fun b => !b == a)).length < (a :: l).length
  exact Nat.lt_succ_of_le (length_filter_le _ l)

theorem eraseDups_of_nodup {l : List α} (h : l.Nodup) : l.eraseDups = l := by
  induction l with
  | nil => rfl
  | cons a l ih =>
    obtain ⟨ha, hl⟩ := nodup_cons.mp h
    have hkept : l.filter (fun b => !b == a) = l := by
      apply filter_eq_self.mpr
      intro b hb
      have hne : b ≠ a := fun heq => ha (heq ▸ hb)
      simpa using hne
    rw [eraseDups_cons, hkept, ih hl]

end Distinct

/-! ## The trimming loop -/

section Trimmed

variable (fits : List String → Bool)

theorem trimmed_initial (paths : List String) : trimmed fits paths <+: paths := by
  fun_induction trimmed fits paths with
  | case1 paths _ ih => exact ih.trans (List.dropLast_prefix paths)
  | case2 paths _ => exact prefix_refl paths

theorem length_trimmed_pos (h : 0 < paths.length) :
    0 < (trimmed fits paths).length := by
  fun_induction trimmed fits paths with
  | case1 paths hmore ih =>
    apply ih
    rw [length_dropLast]
    omega
  | case2 paths _ => exact h

theorem trimmed_fits (h : 1 < (trimmed fits paths).length) :
    fits (trimmed fits paths) = true := by
  fun_induction trimmed fits paths with
  | case1 paths _ ih => exact ih h
  | case2 paths hstop => exact Bool.eq_true_of_not_eq_false fun hfits => hstop ⟨h, hfits⟩

theorem trimmed_longest {first : List String} (h : first <+: paths)
    (hfits : fits first = true) : first.length ≤ (trimmed fits paths).length := by
  fun_induction trimmed fits paths with
  | case1 paths hmore ih =>
    apply ih
    have hne : first ≠ paths := by
      intro heq
      rw [heq, hmore.2] at hfits
      exact Bool.false_ne_true hfits
    have hshort : first.length < paths.length :=
      lt_of_le_of_ne h.length_le (fun heq => hne (h.eq_of_length heq))
    refine prefix_of_prefix_length_le h (List.dropLast_prefix paths) ?_
    rw [length_dropLast]
    omega
  | case2 paths _ => exact h.length_le

end Trimmed

section Bounded

variable {last : Option String} {paths pinned : List String} {revision : Nat} {kept : List String}

theorem nodup_deduplicated (last : Option String) (paths pinned : List String) :
    (deduplicated last paths pinned).Nodup := nodup_eraseDups _

theorem bounded_prefix (h : boundedPaths last paths pinned revision = some kept) :
    kept <+: deduplicated last paths pinned ∧ kept.length ≤ maximumRecentPaths ∧
      candidateFits last pinned revision kept = true := by
  rw [boundedPaths] at h
  obtain ⟨hfits, rfl⟩ := Option.ite_some_none_eq_some.mp h
  have hlead := trimmed_initial (candidateFits last pinned revision)
    ((deduplicated last paths pinned).take maximumRecentPaths)
  refine ⟨hlead.trans (List.take_prefix _ _), hlead.length_le.trans ?_, hfits⟩
  rw [length_take]
  exact Nat.min_le_left _ _

theorem bounded_first (h : boundedPaths last paths pinned revision = some kept) {first : String}
    {rest : List String} (hfirst : deduplicated last paths pinned = first :: rest) :
    ∃ more, kept = first :: more := by
  obtain ⟨hlead, -, -⟩ := bounded_prefix h
  rw [boundedPaths] at h
  obtain ⟨-, rfl⟩ := Option.ite_some_none_eq_some.mp h
  have hpos : 0 < (trimmed (candidateFits last pinned revision)
      ((deduplicated last paths pinned).take maximumRecentPaths)).length := by
    apply length_trimmed_pos
    rw [hfirst]
    exact Nat.succ_pos _
  obtain ⟨head, more, hhead⟩ := exists_cons_of_length_pos hpos
  rw [hhead, hfirst, cons_prefix_cons] at hlead
  exact ⟨more, by rw [hhead, hlead.1]⟩

theorem bounded_longest (h : boundedPaths last paths pinned revision = some kept)
    (htwo : candidateFits last pinned revision ((deduplicated last paths pinned).take 2) = true) :
    ((deduplicated last paths pinned).take 2).length ≤ kept.length := by
  rw [boundedPaths] at h
  obtain ⟨-, rfl⟩ := Option.ite_some_none_eq_some.mp h
  refine trimmed_longest _ ?_ htwo
  exact take_prefix_take_left (by decide)

theorem bounded_none (h : boundedPaths last paths pinned revision = none) :
    candidateFits last pinned revision ((deduplicated last paths pinned).take 1) = false := by
  have hrefused : candidateFits last pinned revision (trimmed (candidateFits last pinned revision)
      ((deduplicated last paths pinned).take maximumRecentPaths)) = false := by
    apply Bool.eq_false_of_not_eq_true
    intro hfits
    rw [boundedPaths, if_pos hfits] at h
    cases h
  generalize candidateFits last pinned revision = fits at hrefused ⊢
  generalize deduplicated last paths pinned = all at hrefused ⊢
  have hlead := (trimmed_initial fits (all.take maximumRecentPaths)).trans (List.take_prefix _ all)
  have hshort : ¬ 1 < (trimmed fits (all.take maximumRecentPaths)).length := by
    intro hlong
    rw [trimmed_fits fits hlong] at hrefused
    exact Bool.false_ne_true hrefused.symm
  rw [prefix_iff_eq_take] at hlead
  cases all with
  | nil =>
    have hnil : trimmed fits ([].take maximumRecentPaths) = [] := by
      rw [hlead, take_nil]
    rw [hnil] at hrefused
    exact hrefused
  | cons first rest =>
    have hpos : 0 < (trimmed fits ((first :: rest).take maximumRecentPaths)).length :=
      length_trimmed_pos fits (Nat.succ_pos _)
    have hone : (trimmed fits ((first :: rest).take maximumRecentPaths)).length = 1 := by omega
    rw [hone] at hlead
    rw [← hlead, hrefused]

end Bounded

/-! ## The bytes of a record -/

def listBytes (paths : List String) : Nat :=
  if paths = [] then 2 else 4 + (paths.map (fun path => JsonText.textSize path.toList + 8)).sum

def lastBytes : Option String → Nat
  | none => 4
  | some path => JsonText.textSize path.toList + 2

theorem length_serialized (memory : StoredWorkspaceMemory) :
    (serializedMemory memory).length = 116 + (toString memory.revision).toList.length +
      lastBytes memory.lastWorkspacePath + listBytes memory.recentWorkspacePaths +
      listBytes memory.pinnedWorkspacePaths := by
  have hnumber (n : Nat) : (JsonText.encode ((Json.ofNat n).pretty 1)).length =
      (toString n).toList.length :=
    Json.length_encode_plain (Json.digits_plain n)
  have hlast (last : Option String) :
      (JsonText.encode ((Json.ofOption Json.string last).pretty 1)).length = lastBytes last := by
    cases last with
    | none => rfl
    | some path => exact Json.length_pretty_string 1 path
  have hlist (paths : List String) :
      (JsonText.encode ((Json.texts paths).pretty 1)).length = listBytes paths :=
    Json.length_pretty_texts 1 paths
  have hend : (JsonText.encode (Json.prettyMembers 1 false [])).length = 0 := rfl
  have hopen : (JsonText.encode [Char.ofNat 0x7b]).length = 1 := rfl
  have hclose : (JsonText.encode (Json.newline 0 ++ [Char.ofNat 0x7d] ++ ['\n'])).length = 3 := rfl
  have hversion : JsonText.textSize "version".toList = 7 := rfl
  have hrevision : JsonText.textSize "revision".toList = 8 := rfl
  have hkey : JsonText.textSize "lastWorkspacePath".toList = 17 := rfl
  have hrecent : JsonText.textSize "recentWorkspacePaths".toList = 20 := rfl
  have hpinned : JsonText.textSize "pinnedWorkspacePaths".toList = 20 := rfl
  have htwo : (toString 2).toList.length = 1 := rfl
  show (JsonText.encode (([Char.ofNat 0x7b] ++ Json.prettyMembers 1 true _ ++ Json.newline 0 ++
    [Char.ofNat 0x7d]) ++ ['\n'])).length = _
  rw [append_assoc, append_assoc, ← append_assoc (Json.newline 0),
    JsonText.encode_append, JsonText.encode_append, length_append, length_append, hopen,
    hclose]
  simp only [Json.length_prettyMembers_cons, hnumber, hlast, hlist, hend, hversion, hrevision,
    hkey, hrecent, hpinned, htwo, if_true, Bool.false_eq_true, if_false]
  omega

variable {part all : List String}

theorem listBytes_sublist (h : part.Sublist all) : listBytes part ≤ listBytes all := by
  have hsum := (h.map (fun path => JsonText.textSize path.toList + 8)).sum_le_sum
    (fun _ _ => Nat.zero_le _)
  rw [listBytes, listBytes]
  by_cases hall : all = []
  · rw [if_pos hall, if_pos (sublist_nil.mp (hall ▸ h))]
  · rw [if_neg hall]
    split <;> omega

theorem listBytes_without {path : String} (h : path ∈ paths) :
    listBytes (paths.filter (· ≠ path)) + 8 ≤ listBytes paths := by
  obtain ⟨before, after, rfl⟩ := append_of_mem h
  have hsub : ((before ++ path :: after).filter (· ≠ path)).Sublist (before ++ after) := by
    rw [filter_append, filter_cons_of_neg (by simp)]
    exact filter_sublist.append filter_sublist
  have hrest := listBytes_sublist hsub
  have hall : listBytes (before ++ path :: after) =
      4 + (((before ++ after).map (fun path => JsonText.textSize path.toList + 8)).sum +
        (JsonText.textSize path.toList + 8)) := by
    rw [listBytes, if_neg (by simp)]
    simp only [map_append, map_cons, sum_append, sum_cons]
    omega
  -- the lines that are left are at least the two brackets
  have hleft : listBytes (before ++ after) ≤
      4 + ((before ++ after).map (fun path => JsonText.textSize path.toList + 8)).sum := by
    rw [listBytes]
    split <;> omega
  rw [hall]
  omega

theorem digits_succ (n : Nat) :
    (toString (n + 1)).toList.length ≤ (toString n).toList.length + 1 := by
  have hpos : 0 < (toString n).toList.length := by
    rw [Json.toList_toString]
    exact Nat.length_toDigits_pos
  have hbelow : n < 10 ^ (toString n).toList.length := (Nat.length_repr_le_iff hpos).mp le_rfl
  apply Json.length_toString_le (Nat.succ_pos _)
  rw [Nat.pow_succ]
  omega

theorem memoryFits_iff (memory : StoredWorkspaceMemory) :
    memoryFits memory = true ↔ (serializedMemory memory).length ≤ maximumSerializedBytes :=
  decide_eq_true_iff

theorem candidateFits_sublist {last : Option String} {pinned : List String} {revision : Nat}
    (h : part.Sublist all) (hfits : candidateFits last pinned revision all = true) :
    candidateFits last pinned revision part = true := by
  have hle := listBytes_sublist h
  have hall := (memoryFits_iff _).mp hfits
  apply (memoryFits_iff _).mpr
  rw [length_serialized] at hall ⊢
  dsimp only at hall ⊢
  omega

/-! ## What is read -/

theorem safeInteger_le {m : Members} {key : String} {n : Nat} (h : safeInteger m key = some n) :
    n ≤ maximumSafeInteger := by
  obtain ⟨value, -, hvalue⟩ := Option.bind_eq_some_iff.mp h
  rw [Json.natural.eq_def] at hvalue
  split at hvalue
  · obtain ⟨⟨-, hlt⟩, rfl⟩ := Option.ite_some_none_eq_some.mp hvalue
    exact Nat.le_of_lt_succ hlt
  · cases hvalue

theorem record_read {α : Type} {known : List String} {reader : Members → Option α} {v : Json}
    {a : α} (h : Json.record known reader v = some a) : ∃ m, reader m = some a := by
  rw [Json.record.eq_def] at h
  split at h
  · obtain ⟨-, hread⟩ := Option.ite_none_right_eq_some.mp h
    exact ⟨_, hread⟩
  · cases h

variable {memory : StoredWorkspaceMemory} {parsed : Json}

theorem valid_of_stored (h : validStoredMemory parsed = some memory) :
    memory.Valid ∧ memory.revision ≤ maximumSafeInteger := by
  obtain ⟨m, hread⟩ := record_read h
  simp only [Option.bind_eq_bind, Option.bind_eq_some_iff, Option.ite_none_right_eq_some,
    Option.some.injEq] at hread
  obtain ⟨_, -, _, hrevision, _, -, _, -, _, -, ⟨-, hvalid⟩, rfl⟩ := hread
  exact ⟨hvalid, safeInteger_le hrevision⟩

theorem valid_of_v1 {v1 : V1StoredWorkspaceMemory} (h : validV1StoredMemory parsed = some v1) :
    (migratedV1Memory v1).storedMemory.Valid ∧ v1.revision ≤ maximumSafeInteger := by
  obtain ⟨m, hread⟩ := record_read h
  simp only [Option.bind_eq_bind, Option.bind_eq_some_iff, Option.ite_none_right_eq_some,
    Option.some.injEq] at hread
  obtain ⟨_, -, _, hrevision, _, -, _, -, ⟨-, hcount, honce, hlast⟩, rfl⟩ := hread
  refine ⟨?_, safeInteger_le hrevision⟩
  exact {
    recentCount := hcount
    pinnedCount := Nat.zero_le _
    recentOnce := honce
    pinnedOnce := .nil
    apart := fun _ _ => not_mem_nil
    lastListed := fun path hpath => .inl (hlast path hpath) }

variable {canonical : String → Option String}

theorem valid_of_legacy {legacy : LegacyStoredWorkspaceMemory}
    (h : (migratedLegacyMemory canonical legacy).diagnostic = none) :
    (migratedLegacyMemory canonical legacy).storedMemory.Valid ∧
      (migratedLegacyMemory canonical legacy).storedMemory.revision ≤ maximumSafeInteger := by
  rw [migratedLegacyMemory] at h ⊢
  generalize legacy.lastWorkspacePath.map (canonicalizedLegacyPath canonical) = last at h ⊢
  cases hkept : boundedPaths last [] [] 0 with
  | none =>
    rw [hkept] at h
    cases h
  | some kept =>
    obtain ⟨hlead, hcount, -⟩ := bounded_prefix hkept
    refine ⟨?_, Nat.zero_le _⟩
    exact {
      recentCount := hcount
      pinnedCount := Nat.zero_le _
      recentOnce := (nodup_deduplicated last [] []).sublist hlead.sublist
      pinnedOnce := .nil
      apart := fun _ _ => not_mem_nil
      lastListed := by
        intro path hpath
        cases hpath
        have honly : deduplicated (some path) [] [] = [path] := by
          simp [deduplicated, eraseDups_cons]
        obtain ⟨more, hmore⟩ := bounded_first hkept honly
        exact .inl (hmore ▸ mem_cons_self) }

theorem corrupt_diagnostic : corruptMemory.diagnostic ≠ none := Option.some_ne_none _

theorem parsed_valid {byteLength : Nat}
    (h : (readParsed canonical byteLength parsed).diagnostic = none) :
    (readParsed canonical byteLength parsed).storedMemory.Valid ∧
      (readParsed canonical byteLength parsed).storedMemory.revision ≤ maximumSafeInteger := by
  rw [readParsed.eq_def] at h ⊢
  cases hstored : validStoredMemory parsed with
  | some memory =>
    rw [hstored] at h
    dsimp only at h ⊢
    split at h
    · exact absurd h corrupt_diagnostic
    · rename_i hfits
      rw [if_neg hfits]
      exact valid_of_stored hstored
  | none =>
    rw [hstored] at h
    dsimp only at h ⊢
    cases hv1 : validV1StoredMemory parsed with
    | some v1 =>
      rw [hv1] at h
      dsimp only at h ⊢
      split at h
      · exact absurd h corrupt_diagnostic
      · rename_i hfits
        rw [if_neg hfits]
        exact valid_of_v1 hv1
    | none =>
      rw [hv1] at h
      dsimp only at h ⊢
      cases hlegacy : validLegacyStoredMemory parsed with
      | some legacy =>
        rw [hlegacy] at h
        dsimp only at h ⊢
        exact valid_of_legacy h
      | none =>
        rw [hlegacy] at h
        exact absurd h corrupt_diagnostic

variable {parse : List UInt8 → Option Json}

theorem read_valid {file : Option (List UInt8)}
    (h : (readStoredWorkspaceMemory parse canonical file).diagnostic = none) :
    (readStoredWorkspaceMemory parse canonical file).storedMemory.Valid ∧
      (readStoredWorkspaceMemory parse canonical file).storedMemory.revision ≤
        maximumSafeInteger := by
  have hempty : emptyMemory.storedMemory.Valid ∧
      emptyMemory.storedMemory.revision ≤ maximumSafeInteger := by decide
  cases file with
  | none => exact hempty
  | some source =>
    rw [readStoredWorkspaceMemory.eq_def] at h ⊢
    dsimp only at h ⊢
    split at h
    · exact absurd h corrupt_diagnostic
    · rename_i hsize
      rw [if_neg hsize]
      cases hparsed : parse source with
      | none =>
        rw [hparsed] at h
        exact absurd h corrupt_diagnostic
      | some parsed =>
        rw [hparsed] at h
        exact parsed_valid h

/-! ## What is read back -/

theorem valid_value (h : memory.Valid) (hrevision : memory.revision ≤ maximumSafeInteger) :
    validStoredMemory memory.value = some memory := by
  have hnames : Json.Names ["version", "revision", "lastWorkspacePath", "recentWorkspacePaths",
      "pinnedWorkspacePaths"] [("version", Json.ofNat 2), ("revision", Json.ofNat memory.revision),
      ("lastWorkspacePath", Json.ofOption Json.string memory.lastWorkspacePath),
      ("recentWorkspacePaths", Json.texts memory.recentWorkspacePaths),
      ("pinnedWorkspacePaths", Json.texts memory.pinnedWorkspacePaths)] := ⟨rfl, by decide⟩
  have hlast : Json.nullable Json.text (Json.ofOption Json.string memory.lastWorkspacePath) =
      some memory.lastWorkspacePath := by
    have hread : ∀ path, Json.text (Json.string path) = some path := fun _ => rfl
    have hnull : ∀ path, Json.string path ≠ Json.null := fun _ heq => Json.noConfusion heq
    exact Json.nullable_ofOption hread hnull _
  rw [validStoredMemory, StoredWorkspaceMemory.value, Json.record_names hnames]
  simp only [safeInteger, lastPath, recentPaths, Json.field_at hnames 0 rfl,
    Json.field_at hnames 1 rfl, Json.field_at hnames 2 rfl, Json.field_at hnames 3 rfl,
    Json.field_at hnames 4 rfl, Json.natural_ofNat (Nat.lt_succ_of_le hrevision),
    Json.natural_ofNat (show 2 < maximumSafeInteger + 1 by decide), hlast, Json.list_texts,
    Option.bind_eq_bind, Option.bind_some]
  exact if_pos ⟨trivial, h⟩

theorem read_serialized (hparse : ReadsBack parse) (canonical : String → Option String)
    (h : memory.Valid) (hrevision : memory.revision ≤ maximumSafeInteger)
    (hfits : memoryFits memory = true) :
    readStoredWorkspaceMemory parse canonical (some (serializedMemory memory)) =
      ⟨memory, none⟩ := by
  have hsize := (memoryFits_iff memory).mp hfits
  have hsource : ¬ (serializedMemory memory).length > maximumLegacySourceBytes := by
    have hbounds : maximumSerializedBytes ≤ maximumLegacySourceBytes := by decide
    omega
  have hsmall : ¬ ((serializedMemory memory).length > maximumSerializedBytes ∨
      memoryFits memory = false) := by
    rw [hfits]
    simp only [Bool.true_eq_false, or_false]
    omega
  rw [readStoredWorkspaceMemory, if_neg hsource, hparse memory hrevision]
  dsimp only
  rw [readParsed, valid_value h hrevision]
  dsimp only
  rw [if_neg hsmall]

end Orkworksd.Desktop.WorkspaceMemory
