import Orkworksd.Desktop.WorkspaceMemory

/- The operations on the workspace history (`workspaceMemory.ts`): remember, forget, pin and
   unpin, on a disk without faults, and what they keep.

   `Keeps` is what is expected of one call on one file, and `Room` the condition under which
   the byte budget lets it: `run_keeps_iff` says that after every run of calls on a file that
   can be read, the next call keeps all of it exactly where there is room. -/
namespace Orkworksd.Desktop.WorkspaceMemory
open Lib List

variable {pinned : List String} {last : Option String}

variable {kept : List String}

/-! ## The source -/

inductive UpdateResult where
  | noChange
  | tooLarge
  | pinLimitReached
  | stored (next : StoredWorkspaceMemory)
  deriving DecidableEq

def writeFailed (current : AppWorkspaceMemory) (message : String) : AppWorkspaceMemory :=
  withDiagnostic current ⟨.historyWriteFailed, message⟩

/-- The file is replaced, and then read and compared with what was meant. -/
def writeAndVerify (parse : List UInt8 → Option Json) (canonical : String → Option String)
    (current : AppWorkspaceMemory) (next : StoredWorkspaceMemory) :
    AppWorkspaceMemory × Option (List UInt8) :=
  let file := some (serializedMemory next)
  let observed := readStoredWorkspaceMemory parse canonical file
  if observed.diagnostic = none ∧ observed.storedMemory.value.print = next.value.print then
    (observed, file)
  else
    (writeFailed current "Workspace history could not be confirmed after replacement.", file)

def tooLargeMessage : String :=
  "Workspace path is too large to fit in the bounded history file."

/-- What `updateWorkspaceMemory` does with the result of the update, and the file it leaves. -/
def settle (parse : List UInt8 → Option Json) (canonical : String → Option String)
    (file : Option (List UInt8)) (current : AppWorkspaceMemory) :
    UpdateResult → AppWorkspaceMemory × Option (List UInt8)
  | .noChange => (current, file)
  | .pinLimitReached =>
    (withDiagnostic current ⟨.pinLimitReached,
      "Only " ++ toString maximumPinnedPaths ++ " workspaces can be pinned at a time."⟩, file)
  | .tooLarge => (writeFailed current tooLargeMessage, file)
  | .stored next =>
    if memoryFits next = false then (writeFailed current tooLargeMessage, file)
    else writeAndVerify parse canonical current next

def updateWorkspaceMemory (parse : List UInt8 → Option Json) (canonical : String → Option String)
    (file : Option (List UInt8)) (update : StoredWorkspaceMemory → UpdateResult) :
    AppWorkspaceMemory × Option (List UInt8) :=
  let current := readStoredWorkspaceMemory parse canonical file
  let next := update current.storedMemory
  if current.diagnostic ≠ none then (current, file)
  else if next ≠ .noChange ∧ current.storedMemory.revision = maximumSafeInteger then
    (writeFailed current "Workspace history revision is exhausted; the file was left unchanged.",
      file)
  else settle parse canonical file current next

/-- The record with these paths cut to what fits, as three of the updates end. -/
def boundedUpdate (lastWorkspacePath : Option String) (paths pinnedWorkspacePaths : List String)
    (revision : Nat) : UpdateResult :=
  match boundedPaths lastWorkspacePath paths pinnedWorkspacePaths revision with
  | none => .tooLarge
  | some recent => .stored ⟨revision, lastWorkspacePath, recent, pinnedWorkspacePaths⟩

def rememberWorkspacePath (path : String) (current : StoredWorkspaceMemory) : UpdateResult :=
  if path ∈ current.pinnedWorkspacePaths then
    if current.lastWorkspacePath = some path then .noChange
    else boundedUpdate (some path) current.recentWorkspacePaths current.pinnedWorkspacePaths
      (current.revision + 1)
  else boundedUpdate (some path) (path :: current.recentWorkspacePaths.filter (· ≠ path))
    current.pinnedWorkspacePaths (current.revision + 1)

/-- The record that `forgetWorkspacePath` writes. -/
def StoredWorkspaceMemory.without (current : StoredWorkspaceMemory) (path : String) :
    StoredWorkspaceMemory where
  revision := current.revision + 1
  lastWorkspacePath :=
    if current.lastWorkspacePath = some path then none else current.lastWorkspacePath
  recentWorkspacePaths := current.recentWorkspacePaths.filter (· ≠ path)
  pinnedWorkspacePaths := current.pinnedWorkspacePaths.filter (· ≠ path)

def forgetWorkspacePath (path : String) (current : StoredWorkspaceMemory) : UpdateResult :=
  let next := current.without path
  if next.recentWorkspacePaths.length ≠ current.recentWorkspacePaths.length ∨
      next.pinnedWorkspacePaths.length ≠ current.pinnedWorkspacePaths.length ∨
      current.lastWorkspacePath = some path then .stored next
  else .noChange

def pinWorkspacePath (path : String) (current : StoredWorkspaceMemory) : UpdateResult :=
  if path ∈ current.pinnedWorkspacePaths then .noChange
  else if current.pinnedWorkspacePaths.length ≥ maximumPinnedPaths then .pinLimitReached
  else .stored {
    revision := current.revision + 1
    lastWorkspacePath := current.lastWorkspacePath
    recentWorkspacePaths := current.recentWorkspacePaths.filter (· ≠ path)
    pinnedWorkspacePaths := path :: current.pinnedWorkspacePaths }

def unpinWorkspacePath (path : String) (current : StoredWorkspaceMemory) : UpdateResult :=
  if path ∈ current.pinnedWorkspacePaths then
    boundedUpdate current.lastWorkspacePath (path :: current.recentWorkspacePaths)
      (current.pinnedWorkspacePaths.filter (· ≠ path)) (current.revision + 1)
  else .noChange

inductive Operation where
  | remember
  | forget
  | pin
  | unpin
  deriving DecidableEq, Repr

def Operation.update : Operation → String → StoredWorkspaceMemory → UpdateResult
  | .remember => rememberWorkspacePath
  | .forget => forgetWorkspacePath
  | .pin => pinWorkspacePath
  | .unpin => unpinWorkspacePath

/-- A call, and the file system's answers while it runs. -/
structure Call where
  operation : Operation
  path : String
  canonical : String → Option String

def call (parse : List UInt8 → Option Json) (c : Call) (file : Option (List UInt8)) :
    AppWorkspaceMemory × Option (List UInt8) :=
  updateWorkspaceMemory parse c.canonical file (c.operation.update c.path)

/-- The file after a run of calls. -/
def after (parse : List UInt8 → Option Json) (file : Option (List UInt8)) (calls : List Call) :
    Option (List UInt8) :=
  calls.foldl (fun file c => (call parse c file).2) file

/-! ## What a call is to keep -/

/-- What is expected of a call on a file: `before` is the record read from it, `result` what the
call returns and `record` what is read from the file it leaves. -/
structure Keeps (parse : List UInt8 → Option Json) (c : Call) (file : Option (List UInt8))
    (before : StoredWorkspaceMemory) (result : AppWorkspaceMemory) (left : Option (List UInt8))
    (record : AppWorkspaceMemory) : Prop where
  /-- A refused call leaves the file. -/
  refused : result.diagnostic ≠ none → left = file
  /-- A call that is not refused returns what the file has then. -/
  returned : result.diagnostic = none → result = record
  /-- A written record is accepted, small enough, confirmed and the next revision. -/
  written : left = file ∨ ∃ next, left = some (serializedMemory next) ∧
    validStoredMemory next.value = some next ∧ memoryFits next = true ∧ result = ⟨next, none⟩ ∧
    next.revision = before.revision + 1
  /-- A pin goes only where it is taken away. -/
  pins : ∀ path ∈ before.pinnedWorkspacePaths, path ∈ record.storedMemory.pinnedWorkspacePaths ∨
    path = c.path ∧ (c.operation = .forget ∨ c.operation = .unpin)
  remembered : c.operation = .remember → result.diagnostic = none →
    record.storedMemory.lastWorkspacePath = some c.path ∧
    (c.path ∈ record.storedMemory.recentWorkspacePaths ↔
      c.path ∉ record.storedMemory.pinnedWorkspacePaths)
  unpinned : c.operation = .unpin → c.path ∈ before.pinnedWorkspacePaths →
    result.diagnostic = none → c.path ∈ record.storedMemory.recentWorkspacePaths
  forgotten : c.operation = .forget → result.diagnostic = none
  /-- A pinned path is refused only where no recent path can make room for it. -/
  roomForPin : c.operation = .remember → c.path ∈ before.pinnedWorkspacePaths →
    result.diagnostic ≠ none →
    candidateFits (some c.path) before.pinnedWorkspacePaths (before.revision + 1) [] = false

def CallKeeps (parse : List UInt8 → Option Json) (c : Call) (file : Option (List UInt8)) : Prop :=
  Keeps parse c file (readStoredWorkspaceMemory parse c.canonical file).storedMemory
    (call parse c file).1 (call parse c file).2
    (readStoredWorkspaceMemory parse c.canonical (call parse c file).2)

/-- The byte budget lets the call keep it: one recent path does not stand in the way of a pinned
last path, the last path does not stand in the way of the path that is unpinned, and the record
without the path fits (as it does where the record fits). -/
def Room (c : Call) (before : StoredWorkspaceMemory) : Prop :=
  match c.operation with
  | .remember => c.path ∈ before.pinnedWorkspacePaths → before.lastWorkspacePath ≠ some c.path →
    let fits := candidateFits (some c.path) before.pinnedWorkspacePaths (before.revision + 1)
    fits [] = true → fits (before.recentWorkspacePaths.take 1) = true
  | .unpin => c.path ∈ before.pinnedWorkspacePaths →
    ∀ last ∈ before.lastWorkspacePath, last ∈ before.recentWorkspacePaths →
    let fits := candidateFits (some last) (before.pinnedWorkspacePaths.filter (· ≠ c.path))
      (before.revision + 1)
    fits [last] = true → fits [last, c.path] = true
  | .forget =>
    c.path ∈ before.recentWorkspacePaths ∨ c.path ∈ before.pinnedWorkspacePaths →
    memoryFits before = true ∨ memoryFits (before.without c.path) = true
  | .pin => True

/-! ## The records that are written -/

section Stored

variable {current next : StoredWorkspaceMemory} {path : String}

variable {paths : List String} {last : Option String}

variable {revision : Nat}

theorem boundedUpdate_stored (h : boundedUpdate last paths pinned revision = .stored next) :
    ∃ kept, boundedPaths last paths pinned revision = some kept ∧
      next = ⟨revision, last, kept, pinned⟩ := by
  rw [boundedUpdate] at h
  cases hkept : boundedPaths last paths pinned revision with
  | none =>
    rw [hkept] at h
    cases h
  | some kept =>
    rw [hkept] at h
    cases h
    exact ⟨kept, rfl, rfl⟩

theorem mem_deduplicated (h : path ∈ deduplicated last paths pinned) :
    (last = some path ∧ path ∉ pinned) ∨ path ∈ paths := by
  rw [deduplicated, mem_eraseDups, mem_append, mem_filter, Option.mem_toList] at h
  cases h with
  | inl h => exact .inl ⟨h.1, of_decide_eq_true h.2⟩
  | inr h => exact .inr h

theorem deduplicated_last {last : String} (paths : List String)
    (h : last ∉ pinned) : deduplicated (some last) paths pinned =
      last :: (paths.filter (fun path => !path == last)).eraseDups := by
  have hkept : (some last).toList.filter (fun path => path ∉ pinned) = [last] := by simp [h]
  rw [deduplicated, hkept, singleton_append, eraseDups_cons]

theorem deduplicated_pinned {last : String} (paths : List String)
    (h : last ∈ pinned) : deduplicated (some last) paths pinned = paths.eraseDups := by
  have hkept : (some last).toList.filter (fun path => path ∉ pinned) = [] := by simp [h]
  rw [deduplicated, hkept, nil_append]

theorem bounded_valid (h : boundedPaths last paths pinned revision = some kept)
    (hcount : pinned.length ≤ maximumPinnedPaths) (honce : pinned.Nodup)
    (hapart : ∀ path ∈ paths, path ∉ pinned) :
    (⟨revision, last, kept, pinned⟩ : StoredWorkspaceMemory).Valid := by
  obtain ⟨hlead, hkept, -⟩ := bounded_prefix h
  exact {
    recentCount := hkept
    pinnedCount := hcount
    recentOnce := (nodup_deduplicated last paths pinned).sublist hlead.sublist
    pinnedOnce := honce
    apart := by
      intro path hpath
      cases mem_deduplicated (hlead.subset hpath) with
      | inl hlast => exact hlast.2
      | inr hother => exact hapart path hother
    lastListed := by
      intro path hpath
      cases hpath
      by_cases hpinned : path ∈ pinned
      · exact .inr hpinned
      · obtain ⟨more, rfl⟩ := bounded_first h (deduplicated_last paths hpinned)
        exact .inl mem_cons_self }

theorem remember_stored (hvalid : current.Valid)
    (h : rememberWorkspacePath path current = .stored next) :
    next.Valid ∧ next.revision = current.revision + 1 ∧ next.lastWorkspacePath = some path ∧
      next.pinnedWorkspacePaths = current.pinnedWorkspacePaths := by
  rw [rememberWorkspacePath] at h
  by_cases hpinned : path ∈ current.pinnedWorkspacePaths
  · rw [if_pos hpinned] at h
    by_cases hlast : current.lastWorkspacePath = some path
    · rw [if_pos hlast] at h
      cases h
    · rw [if_neg hlast] at h
      obtain ⟨kept, hkept, rfl⟩ := boundedUpdate_stored h
      exact ⟨bounded_valid hkept hvalid.pinnedCount hvalid.pinnedOnce hvalid.apart, rfl, rfl, rfl⟩
  · rw [if_neg hpinned] at h
    obtain ⟨kept, hkept, rfl⟩ := boundedUpdate_stored h
    refine ⟨bounded_valid hkept hvalid.pinnedCount hvalid.pinnedOnce ?_, rfl, rfl, rfl⟩
    intro other hother
    cases mem_cons.mp hother with
    | inl heq => exact heq ▸ hpinned
    | inr hrecent => exact hvalid.apart other (mem_of_mem_filter hrecent)

theorem forget_stored (hvalid : current.Valid) :
    (current.without path).Valid where
  recentCount := (length_filter_le _ _).trans hvalid.recentCount
  pinnedCount := (length_filter_le _ _).trans hvalid.pinnedCount
  recentOnce := hvalid.recentOnce.filter _
  pinnedOnce := hvalid.pinnedOnce.filter _
  apart other hother hpinned :=
    hvalid.apart other (mem_of_mem_filter hother) (mem_of_mem_filter hpinned)
  lastListed := by
    intro last hlast
    dsimp only [StoredWorkspaceMemory.without] at hlast ⊢
    obtain ⟨hne, hlast⟩ := Option.ite_none_left_eq_some.mp hlast
    have hother : last ≠ path := fun heq => hne (heq ▸ hlast)
    have hkept : decide (last ≠ path) = true := decide_eq_true hother
    exact (hvalid.lastListed last hlast).imp (mem_filter.mpr ⟨·, hkept⟩) (mem_filter.mpr ⟨·, hkept⟩)

theorem pin_stored (hvalid : current.Valid) (h : pinWorkspacePath path current = .stored next) :
    next.Valid ∧ next.revision = current.revision + 1 ∧
      next.pinnedWorkspacePaths = path :: current.pinnedWorkspacePaths := by
  rw [pinWorkspacePath] at h
  by_cases hpinned : path ∈ current.pinnedWorkspacePaths
  · rw [if_pos hpinned] at h
    cases h
  rw [if_neg hpinned] at h
  by_cases hfull : current.pinnedWorkspacePaths.length ≥ maximumPinnedPaths
  · rw [if_pos hfull] at h
    cases h
  rw [if_neg hfull] at h
  cases h
  refine ⟨?_, rfl, rfl⟩
  exact {
    recentCount := (length_filter_le _ _).trans hvalid.recentCount
    pinnedCount := by
      rw [length_cons]
      omega
    recentOnce := hvalid.recentOnce.filter _
    pinnedOnce := nodup_cons.mpr ⟨hpinned, hvalid.pinnedOnce⟩
    apart := by
      intro other hother
      obtain ⟨hrecent, hne⟩ := mem_filter.mp hother
      rw [mem_cons, not_or]
      exact ⟨of_decide_eq_true hne, hvalid.apart other hrecent⟩
    lastListed := by
      intro last hlast
      by_cases heq : last = path
      · exact .inr (heq ▸ mem_cons_self)
      · exact (hvalid.lastListed last hlast).imp
          (mem_filter.mpr ⟨·, decide_eq_true heq⟩) (mem_cons_of_mem path) }

theorem unpin_stored (hvalid : current.Valid) (h : unpinWorkspacePath path current = .stored next) :
    next.Valid ∧ next.revision = current.revision + 1 ∧
      next.pinnedWorkspacePaths = current.pinnedWorkspacePaths.filter (· ≠ path) := by
  rw [unpinWorkspacePath] at h
  by_cases hpinned : path ∈ current.pinnedWorkspacePaths
  · rw [if_pos hpinned] at h
    obtain ⟨kept, hkept, rfl⟩ := boundedUpdate_stored h
    refine ⟨bounded_valid hkept ?_ (hvalid.pinnedOnce.filter _) ?_, rfl, rfl⟩
    · exact (length_filter_le _ _).trans hvalid.pinnedCount
    · intro other hother hleft
      obtain ⟨hin, hne⟩ := mem_filter.mp hleft
      cases mem_cons.mp hother with
      | inl heq => exact of_decide_eq_true hne heq
      | inr hrecent => exact hvalid.apart other hrecent hin
  · rw [if_neg hpinned] at h
    cases h

theorem forget_without (h : forgetWorkspacePath path current = .stored next) :
    next = current.without path := by
  rw [forgetWorkspacePath] at h
  split at h
  · exact (UpdateResult.stored.inj h).symm
  · cases h

theorem update_valid (hvalid : current.Valid) {operation : Operation}
    (h : operation.update path current = .stored next) :
    next.Valid ∧ next.revision = current.revision + 1 := by
  cases operation with
  | remember =>
    obtain ⟨hnext, hrevision, -⟩ := remember_stored hvalid h
    exact ⟨hnext, hrevision⟩
  | forget =>
    rw [forget_without h]
    exact ⟨forget_stored hvalid, rfl⟩
  | pin =>
    obtain ⟨hnext, hrevision, -⟩ := pin_stored hvalid h
    exact ⟨hnext, hrevision⟩
  | unpin =>
    obtain ⟨hnext, hrevision, -⟩ := unpin_stored hvalid h
    exact ⟨hnext, hrevision⟩

end Stored

/-! ## One call -/

section OneCall

variable {parse : List UInt8 → Option Json} {c : Call} {file : Option (List UInt8)}

theorem write_confirmed (hparse : ReadsBack parse) (canonical : String → Option String)
    (current : AppWorkspaceMemory) {next : StoredWorkspaceMemory} (hvalid : next.Valid)
    (hrevision : next.revision ≤ maximumSafeInteger) (hfits : memoryFits next = true) :
    writeAndVerify parse canonical current next = (⟨next, none⟩, some (serializedMemory next)) := by
  have hread := read_serialized hparse canonical hvalid hrevision hfits
  rw [writeAndVerify, hread]
  exact if_pos ⟨rfl, rfl⟩

/-- What was made of a call. -/
inductive Outcome (c : Call) (file : Option (List UInt8)) (current : AppWorkspaceMemory) :
    AppWorkspaceMemory × Option (List UInt8) → Prop where
  | unchanged : c.operation.update c.path current.storedMemory = .noChange →
      Outcome c file current (current, file)
  | refused (diagnostic : WorkspaceMemoryDiagnostic) :
      c.operation.update c.path current.storedMemory ≠ .noChange →
      (∀ next, c.operation.update c.path current.storedMemory = .stored next →
        memoryFits next = false) →
      Outcome c file current (withDiagnostic current diagnostic, file)
  | written (next : StoredWorkspaceMemory) :
      c.operation.update c.path current.storedMemory = .stored next → memoryFits next = true →
      next.Valid → next.revision = current.storedMemory.revision + 1 →
      Outcome c file current (⟨next, none⟩, some (serializedMemory next))

theorem call_outcome (hparse : ReadsBack parse)
    (hread : (readStoredWorkspaceMemory parse c.canonical file).diagnostic = none)
    (hrevision : (readStoredWorkspaceMemory parse c.canonical file).storedMemory.revision <
      maximumSafeInteger) :
    Outcome c file (readStoredWorkspaceMemory parse c.canonical file) (call parse c file) := by
  obtain ⟨hvalid, -⟩ := read_valid hread
  rw [call, updateWorkspaceMemory]
  generalize readStoredWorkspaceMemory parse c.canonical file = current at *
  have hmore : ¬ (c.operation.update c.path current.storedMemory ≠ .noChange ∧
      current.storedMemory.revision = maximumSafeInteger) := fun h => by omega
  rw [if_neg (not_not_intro hread), if_neg hmore]
  cases hupdate : c.operation.update c.path current.storedMemory with
  | noChange => exact .unchanged hupdate
  | tooLarge =>
    refine .refused _ ?_ ?_
    · rw [hupdate]
      exact UpdateResult.noConfusion
    · intro next hnext
      rw [hupdate] at hnext
      cases hnext
  | pinLimitReached =>
    refine .refused _ ?_ ?_
    · rw [hupdate]
      exact UpdateResult.noConfusion
    · intro next hnext
      rw [hupdate] at hnext
      cases hnext
  | stored next =>
    obtain ⟨hnext, hsucc⟩ := update_valid hvalid hupdate
    cases hfits : memoryFits next with
    | false =>
      rw [settle, if_pos hfits]
      refine .refused _ ?_ ?_
      · rw [hupdate]
        exact UpdateResult.noConfusion
      · intro other hother
        rw [hupdate] at hother
        cases hother
        exact hfits
    | true =>
      rw [settle, if_neg (by rw [hfits]; exact Bool.noConfusion),
        write_confirmed hparse c.canonical current hnext (by omega) hfits]
      exact .written next hupdate hfits hnext hsucc

end OneCall

/-! ## What fits -/

section Fits

variable {current : StoredWorkspaceMemory} {path : String}

/-- Of a record that fits, the record without a path of it fits: the path's line is longer than
`null` and one more digit. -/
theorem without_fits
    (hmem : path ∈ current.recentWorkspacePaths ∨ path ∈ current.pinnedWorkspacePaths)
    (hfits : memoryFits current = true) : memoryFits (current.without path) = true := by
  have hall := (memoryFits_iff _).mp hfits
  have hdigits := digits_succ current.revision
  have hlast : lastBytes (current.without path).lastWorkspacePath ≤
      lastBytes current.lastWorkspacePath + 2 := by
    dsimp only [StoredWorkspaceMemory.without]
    split
    · rename_i heq
      rw [heq, lastBytes, lastBytes]
      omega
    · exact Nat.le_add_right _ 2
  have hrecent := listBytes_sublist
    (filter_sublist (l := current.recentWorkspacePaths) (p := (· ≠ path)))
  have hpinned := listBytes_sublist
    (filter_sublist (l := current.pinnedWorkspacePaths) (p := (· ≠ path)))
  have hline : listBytes (current.recentWorkspacePaths.filter (· ≠ path)) +
      listBytes (current.pinnedWorkspacePaths.filter (· ≠ path)) + 8 ≤
      listBytes current.recentWorkspacePaths + listBytes current.pinnedWorkspacePaths := by
    cases hmem with
    | inl h =>
      have hless := listBytes_without h
      omega
    | inr h =>
      have hless := listBytes_without h
      omega
  apply (memoryFits_iff _).mpr
  rw [length_serialized] at hall ⊢
  have hrevision : (current.without path).revision = current.revision + 1 := rfl
  have hrecents : (current.without path).recentWorkspacePaths =
      current.recentWorkspacePaths.filter (· ≠ path) := rfl
  have hpins : (current.without path).pinnedWorkspacePaths =
      current.pinnedWorkspacePaths.filter (· ≠ path) := rfl
  rw [hrevision, hrecents, hpins]
  omega

theorem unpin_second (hvalid : current.Valid) (hpinned : path ∈ current.pinnedWorkspacePaths)
    {last : String} (hlast : last ∈ current.recentWorkspacePaths) :
    ∃ rest, deduplicated (some last) (path :: current.recentWorkspacePaths)
      (current.pinnedWorkspacePaths.filter (· ≠ path)) = last :: path :: rest := by
  have hfree : last ∉ current.pinnedWorkspacePaths.filter (· ≠ path) := fun h =>
    hvalid.apart last hlast (mem_of_mem_filter h)
  have hne : path ≠ last := fun heq => hvalid.apart last hlast (heq ▸ hpinned)
  have hkept : (!path == last) = true := by simpa using hne
  rw [deduplicated_last _ hfree, filter_cons, if_pos hkept, eraseDups_cons]
  exact ⟨_, rfl⟩

theorem unpin_first (hvalid : current.Valid)
    (hother : ∀ last ∈ current.lastWorkspacePath, last ∉ current.recentWorkspacePaths) :
    ∃ rest, deduplicated current.lastWorkspacePath (path :: current.recentWorkspacePaths)
      (current.pinnedWorkspacePaths.filter (· ≠ path)) = path :: rest := by
  cases hlast : current.lastWorkspacePath with
  | none =>
    have hall : deduplicated none (path :: current.recentWorkspacePaths)
        (current.pinnedWorkspacePaths.filter (· ≠ path)) =
        (path :: current.recentWorkspacePaths).eraseDups := rfl
    rw [hall, eraseDups_cons]
    exact ⟨_, rfl⟩
  | some last =>
    by_cases hfree : last ∈ current.pinnedWorkspacePaths.filter (· ≠ path)
    · rw [deduplicated_pinned _ hfree, eraseDups_cons]
      exact ⟨_, rfl⟩
    · -- it is pinned, so it is the path itself
      have hpinned := (hvalid.lastListed last hlast).resolve_left (hother last hlast)
      have heq : last = path := by
        apply Decidable.byContradiction
        intro hne
        exact hfree (mem_filter.mpr ⟨hpinned, decide_eq_true hne⟩)
      subst heq
      rw [deduplicated_last _ hfree]
      exact ⟨_, rfl⟩

theorem second_kept_iff {paths : List String} {revision : Nat}
    (h : boundedPaths last paths pinned revision = some kept) {first second : String}
    {rest : List String} (hpaths : deduplicated last paths pinned = first :: second :: rest) :
    second ∈ kept ↔ candidateFits last pinned revision [first, second] = true := by
  obtain ⟨hlead, -, hfits⟩ := bounded_prefix h
  obtain ⟨more, rfl⟩ := bounded_first h hpaths
  have honce := nodup_deduplicated last paths pinned
  rw [hpaths] at hlead honce
  have hne : second ≠ first := fun heq =>
    (nodup_cons.mp honce).1 (heq ▸ mem_cons_self)
  obtain ⟨-, hlead⟩ := cons_prefix_cons.mp hlead
  constructor
  · intro hmem
    have hmore : second ∈ more := (mem_cons.mp hmem).resolve_left hne
    have htwo : [first, second].Sublist (first :: more) :=
      (singleton_sublist.mpr hmore).cons_cons first
    exact candidateFits_sublist htwo hfits
  · intro htwo
    have htake : (deduplicated last paths pinned).take 2 = [first, second] := by rw [hpaths]; rfl
    have hlong := bounded_longest h (by rw [htake, htwo])
    rw [htake] at hlong
    have hpos : 0 < more.length := Nat.lt_of_succ_lt_succ hlong
    obtain ⟨head, tail, rfl⟩ := exists_cons_of_length_pos hpos
    rw [(cons_prefix_cons.mp hlead).1]
    exact mem_cons_of_mem _ mem_cons_self

end Fits

/-! ## The room for a call -/

section Room

variable {parse : List UInt8 → Option Json} {c : Call} {file : Option (List UInt8)}
  {before : StoredWorkspaceMemory}

variable {path : String}

theorem unpin_kept_iff (hvalid : before.Valid) (hpinned : c.path ∈ before.pinnedWorkspacePaths)
    (hop : c.operation = .unpin)
    (h : boundedPaths before.lastWorkspacePath (c.path :: before.recentWorkspacePaths)
      (before.pinnedWorkspacePaths.filter (· ≠ c.path)) (before.revision + 1) = some kept) :
    c.path ∈ kept ↔ Room c before := by
  obtain ⟨hlead, -, hfits⟩ := bounded_prefix h
  rw [Room, hop]
  dsimp only
  by_cases hrecent : ∃ last ∈ before.lastWorkspacePath, last ∈ before.recentWorkspacePaths
  · obtain ⟨last, hlast, hin⟩ := hrecent
    have heq : before.lastWorkspacePath = some last := hlast
    obtain ⟨rest, hpaths⟩ := unpin_second hvalid hpinned hin
    rw [heq] at h hfits ⊢
    obtain ⟨more, hmore⟩ := bounded_first h hpaths
    have hone : candidateFits (some last) (before.pinnedWorkspacePaths.filter (· ≠ c.path))
        (before.revision + 1) [last] = true := by
      rw [hmore] at hfits
      exact candidateFits_sublist (singleton_sublist.mpr mem_cons_self) hfits
    rw [second_kept_iff h hpaths]
    constructor
    · intro htwo _ other hother _ _
      cases hother
      exact htwo
    · exact fun hroom => hroom hpinned last rfl hin hone
  · have hother : ∀ last ∈ before.lastWorkspacePath, last ∉ before.recentWorkspacePaths :=
      fun last hlast hin => hrecent ⟨last, hlast, hin⟩
    obtain ⟨rest, hpaths⟩ := unpin_first hvalid hother
    obtain ⟨more, rfl⟩ := bounded_first h hpaths
    constructor
    · exact fun _ _ last hlast hin => absurd hin (hother last hlast)
    · exact fun _ => mem_cons_self

theorem unpin_none_room (hvalid : before.Valid) (hop : c.operation = .unpin)
    (h : boundedPaths before.lastWorkspacePath (c.path :: before.recentWorkspacePaths)
      (before.pinnedWorkspacePaths.filter (· ≠ c.path)) (before.revision + 1) = none) :
    Room c before := by
  have hnone := bounded_none h
  rw [Room, hop]
  intro hpinned last hlast hin fits hone
  obtain ⟨rest, hpaths⟩ := unpin_second hvalid hpinned hin
  have heq : before.lastWorkspacePath = some last := hlast
  rw [heq, hpaths] at hnone
  exact absurd (hone.symm.trans hnone) Bool.true_eq_false.mp

variable {paths : List String}

variable {revision : Nat}

theorem boundedUpdate_ne :
    boundedUpdate last paths pinned revision ≠ .noChange := by
  rw [boundedUpdate]
  split <;> exact UpdateResult.noConfusion

theorem boundedUpdate_refused
    (h : ∀ next, boundedUpdate last paths pinned revision = .stored next →
      memoryFits next = false) : boundedPaths last paths pinned revision = none := by
  cases hkept : boundedPaths last paths pinned revision with
  | none => rfl
  | some kept =>
    obtain ⟨-, -, hfits⟩ := bounded_prefix hkept
    have hupdate : boundedUpdate last paths pinned revision =
        .stored ⟨revision, last, kept, pinned⟩ := by rw [boundedUpdate, hkept]
    have hrefused := h _ hupdate
    exact absurd (hfits.symm.trans hrefused) Bool.true_eq_false.mp

theorem filter_ne_length :
    (paths.filter (· ≠ path)).length ≠ paths.length ↔ path ∈ paths := by
  rw [ne_eq, length_filter_eq_length_iff]
  simp

theorem forget_mem_iff (hvalid : before.Valid) (path : String) :
    ((before.without path).recentWorkspacePaths.length ≠ before.recentWorkspacePaths.length ∨
      (before.without path).pinnedWorkspacePaths.length ≠ before.pinnedWorkspacePaths.length ∨
      before.lastWorkspacePath = some path) ↔
      path ∈ before.recentWorkspacePaths ∨ path ∈ before.pinnedWorkspacePaths := by
  have hlast : before.lastWorkspacePath = some path →
      path ∈ before.recentWorkspacePaths ∨ path ∈ before.pinnedWorkspacePaths :=
    hvalid.lastListed path
  calc _ ↔ path ∈ before.recentWorkspacePaths ∨ path ∈ before.pinnedWorkspacePaths ∨
        before.lastWorkspacePath = some path :=
        or_congr filter_ne_length (or_congr filter_ne_length Iff.rfl)
    _ ↔ _ := by rw [← or_assoc, or_iff_left_of_imp hlast]

theorem forget_present (hvalid : before.Valid)
    (h : path ∈ before.recentWorkspacePaths ∨ path ∈ before.pinnedWorkspacePaths) :
    forgetWorkspacePath path before = .stored (before.without path) := by
  rw [forgetWorkspacePath]
  exact if_pos ((forget_mem_iff hvalid path).mpr h)

theorem forget_absent (hvalid : before.Valid)
    (h : ¬ (path ∈ before.recentWorkspacePaths ∨ path ∈ before.pinnedWorkspacePaths)) :
    forgetWorkspacePath path before = .noChange := by
  rw [forgetWorkspacePath]
  exact if_neg (fun hmem => h ((forget_mem_iff hvalid path).mp hmem))

theorem remember_noChange_iff (path : String) :
    rememberWorkspacePath path before = .noChange ↔
      path ∈ before.pinnedWorkspacePaths ∧ before.lastWorkspacePath = some path := by
  rw [rememberWorkspacePath]
  by_cases hpinned : path ∈ before.pinnedWorkspacePaths
  · rw [if_pos hpinned]
    by_cases hlast : before.lastWorkspacePath = some path
    · simp [hpinned, hlast]
    · simp [hlast, boundedUpdate_ne]
  · simp [hpinned, boundedUpdate_ne]

theorem unpin_pinned (h : path ∈ before.pinnedWorkspacePaths) :
    unpinWorkspacePath path before =
      boundedUpdate before.lastWorkspacePath (path :: before.recentWorkspacePaths)
        (before.pinnedWorkspacePaths.filter (· ≠ path)) (before.revision + 1) := by
  rw [unpinWorkspacePath, if_pos h]

theorem remember_pinned (h : path ∈ before.pinnedWorkspacePaths)
    (hlast : before.lastWorkspacePath ≠ some path) : rememberWorkspacePath path before =
      boundedUpdate (some path) before.recentWorkspacePaths before.pinnedWorkspacePaths
        (before.revision + 1) := by
  rw [rememberWorkspacePath, if_pos h, if_neg hlast]

theorem deduplicated_recent (hvalid : before.Valid) (h : path ∈ before.pinnedWorkspacePaths) :
    deduplicated (some path) before.recentWorkspacePaths before.pinnedWorkspacePaths =
      before.recentWorkspacePaths := by
  rw [deduplicated_pinned _ h, eraseDups_of_nodup hvalid.recentOnce]

end Room

/-! ## A call keeps what it is to keep where there is room -/

section Call

variable {parse : List UInt8 → Option Json} {c : Call} {file : Option (List UInt8)}
  {before next : StoredWorkspaceMemory}

theorem unchanged_keeps (hvalid : before.Valid)
    (h : c.operation.update c.path before = .noChange) :
    Keeps parse c file before ⟨before, none⟩ file ⟨before, none⟩ ∧ Room c before := by
  constructor
  · exact {
      refused := fun hrefused => absurd rfl hrefused
      returned := fun _ => rfl
      written := .inl rfl
      pins := fun _ hpath => .inl hpath
      remembered := by
        intro hop _
        rw [hop] at h
        obtain ⟨hpinned, hlast⟩ := (remember_noChange_iff c.path).mp h
        refine ⟨hlast, fun hrecent => hvalid.apart _ hrecent, fun hnot => absurd hpinned hnot⟩
      unpinned := by
        intro hop hpinned _
        rw [hop] at h
        exact absurd ((unpin_pinned hpinned).symm.trans h) boundedUpdate_ne
      forgotten := fun _ => rfl
      roomForPin := fun _ _ hrefused => absurd rfl hrefused }
  · cases hop : c.operation with
    | remember =>
      rw [Room, hop]
      rw [hop] at h
      exact fun _ hne => absurd ((remember_noChange_iff c.path).mp h).2 hne
    | forget =>
      rw [Room, hop]
      rw [hop] at h
      intro hmem
      exact UpdateResult.noConfusion ((forget_present hvalid hmem).symm.trans h)
    | pin =>
      rw [Room, hop]
      trivial
    | unpin =>
      rw [Room, hop]
      rw [hop] at h
      intro hpinned
      exact absurd ((unpin_pinned hpinned).symm.trans h) boundedUpdate_ne

theorem refused_keeps_iff (diagnostic : WorkspaceMemoryDiagnostic) :
    Keeps parse c file before (withDiagnostic ⟨before, none⟩ diagnostic) file ⟨before, none⟩ ↔
      c.operation ≠ .forget ∧ (c.operation = .remember →
        c.path ∈ before.pinnedWorkspacePaths →
        candidateFits (some c.path) before.pinnedWorkspacePaths
          (before.revision + 1) [] = false) := by
  have hrefused : (withDiagnostic ⟨before, none⟩ diagnostic).diagnostic ≠ none :=
    Option.some_ne_none _
  constructor
  · intro hkeeps
    exact ⟨fun hop => hrefused (hkeeps.forgotten hop),
      fun hop hpinned => hkeeps.roomForPin hop hpinned hrefused⟩
  · intro ⟨hforget, hpin⟩
    exact {
      refused := fun _ => rfl
      returned := fun h => absurd h hrefused
      written := .inl rfl
      pins := fun _ hpath => .inl hpath
      remembered := fun _ h => absurd h hrefused
      unpinned := fun _ _ h => absurd h hrefused
      forgotten := fun hop => absurd hop hforget
      roomForPin := fun hop hpinned _ => hpin hop hpinned }

theorem refused_room_iff (hvalid : before.Valid)
    (hchange : c.operation.update c.path before ≠ .noChange)
    (hfits : ∀ next, c.operation.update c.path before = .stored next → memoryFits next = false) :
    Room c before ↔
      c.operation ≠ .forget ∧ (c.operation = .remember →
        c.path ∈ before.pinnedWorkspacePaths →
        candidateFits (some c.path) before.pinnedWorkspacePaths
          (before.revision + 1) [] = false) := by
  cases hop : c.operation with
  | pin => simp [Room, hop]
  | unpin =>
    rw [hop] at hfits
    simp only [ne_eq, reduceCtorEq, not_false_eq_true, false_implies, and_self, iff_true]
    by_cases hpinned : c.path ∈ before.pinnedWorkspacePaths
    · refine unpin_none_room hvalid hop (boundedUpdate_refused ?_)
      rw [← unpin_pinned hpinned]
      exact hfits
    · rw [Room, hop]
      exact fun h => absurd h hpinned
  | forget =>
    rw [hop] at hchange hfits
    simp only [ne_eq, not_true_eq_false, false_and, iff_false]
    have hmem : c.path ∈ before.recentWorkspacePaths ∨
        c.path ∈ before.pinnedWorkspacePaths :=
      Decidable.byContradiction fun hnot => hchange (forget_absent hvalid hnot)
    have hsmall := hfits _ (forget_present hvalid hmem)
    rw [Room, hop]
    intro hroom
    cases hroom hmem with
    | inl hall => exact Bool.true_eq_false.mp ((without_fits hmem hall).symm.trans hsmall)
    | inr hnext => exact Bool.true_eq_false.mp (hnext.symm.trans hsmall)
  | remember =>
    rw [hop] at hchange hfits
    simp only [ne_eq, reduceCtorEq, not_false_eq_true, true_implies, true_and]
    rw [Room, hop]
    refine forall_congr' fun hpinned => ?_
    have hlast : before.lastWorkspacePath ≠ some c.path := fun heq =>
      hchange ((remember_noChange_iff c.path).mpr ⟨hpinned, heq⟩)
    have hnone : boundedPaths (some c.path) before.recentWorkspacePaths
        before.pinnedWorkspacePaths (before.revision + 1) = none := by
      apply boundedUpdate_refused
      rw [← remember_pinned hpinned hlast]
      exact hfits
    -- it was refused with the first recent path alone
    have hfirst := bounded_none hnone
    rw [deduplicated_recent hvalid hpinned] at hfirst
    constructor
    · intro hroom
      apply Bool.eq_false_of_not_eq_true
      intro hempty
      exact Bool.true_eq_false.mp ((hroom hlast hempty).symm.trans hfirst)
    · intro hempty _ fits hfit
      exact absurd (hfit.symm.trans hempty) Bool.true_eq_false.mp

theorem written_keeps_iff (hvalid : before.Valid)
    (hupdate : c.operation.update c.path before = .stored next)
    (hfits : memoryFits next = true) (hnext : next.Valid)
    (hrevision : next.revision = before.revision + 1)
    (hmax : before.revision < maximumSafeInteger) :
    Keeps parse c file before ⟨next, none⟩ (some (serializedMemory next))
        ⟨next, none⟩ ↔
      (c.operation = .unpin → c.path ∈ before.pinnedWorkspacePaths →
        c.path ∈ next.recentWorkspacePaths) := by
  constructor
  · exact fun hkeeps hop hpinned => hkeeps.unpinned hop hpinned rfl
  intro hunpin
  exact {
    refused := fun h => absurd rfl h
    returned := fun _ => rfl
    written := .inr ⟨next, rfl, valid_value hnext (by omega), hfits, rfl, hrevision⟩
    pins := by
      intro path hpath
      dsimp only
      cases hop : c.operation with
      | remember =>
        rw [hop] at hupdate
        obtain ⟨-, -, -, hpins⟩ := remember_stored hvalid hupdate
        exact .inl (hpins ▸ hpath)
      | pin =>
        rw [hop] at hupdate
        obtain ⟨-, -, hpins⟩ := pin_stored hvalid hupdate
        exact .inl (hpins ▸ mem_cons_of_mem c.path hpath)
      | forget =>
        rw [hop] at hupdate
        rw [forget_without hupdate]
        by_cases heq : path = c.path
        · exact .inr ⟨heq, .inl rfl⟩
        · exact .inl (mem_filter.mpr ⟨hpath, decide_eq_true heq⟩)
      | unpin =>
        rw [hop] at hupdate
        obtain ⟨-, -, hpins⟩ := unpin_stored hvalid hupdate
        by_cases heq : path = c.path
        · exact .inr ⟨heq, .inr rfl⟩
        · exact .inl (hpins ▸ mem_filter.mpr ⟨hpath, decide_eq_true heq⟩)
    remembered := by
      intro hop _
      rw [hop] at hupdate
      obtain ⟨-, -, hlast, -⟩ := remember_stored hvalid hupdate
      exact ⟨hlast, hnext.apart c.path, (hnext.lastListed c.path hlast).resolve_right⟩
    unpinned := fun hop hpinned _ => hunpin hop hpinned
    forgotten := fun _ => rfl
    roomForPin := fun _ _ h => absurd rfl h }

theorem written_room_iff (hvalid : before.Valid)
    (hupdate : c.operation.update c.path before = .stored next)
    (hfits : memoryFits next = true) :
    Room c before ↔
      (c.operation = .unpin → c.path ∈ before.pinnedWorkspacePaths →
        c.path ∈ next.recentWorkspacePaths) := by
  cases hop : c.operation with
  | pin => simp [Room, hop]
  | forget =>
    rw [hop] at hupdate
    have hnext := forget_without hupdate
    simp only [reduceCtorEq, false_implies, iff_true]
    rw [Room, hop]
    exact fun _ => .inr (hnext ▸ hfits)
  | unpin =>
    rw [hop] at hupdate
    simp only [true_implies]
    by_cases hpinned : c.path ∈ before.pinnedWorkspacePaths
    · obtain ⟨kept, hkept, rfl⟩ :=
        boundedUpdate_stored ((unpin_pinned hpinned).symm.trans hupdate)
      rw [← unpin_kept_iff hvalid hpinned hop hkept]
      exact ⟨fun h _ => h, fun h => h hpinned⟩
    · refine ⟨fun _ h => absurd h hpinned, fun _ => ?_⟩
      rw [Room, hop]
      exact fun h => absurd h hpinned
  | remember =>
    rw [hop] at hupdate
    simp only [reduceCtorEq, false_implies, iff_true]
    rw [Room, hop]
    intro hpinned hlast fits hempty
    obtain ⟨kept, hkept, -⟩ :=
      boundedUpdate_stored ((remember_pinned hpinned hlast).symm.trans hupdate)
    obtain ⟨-, -, hkeptFits⟩ := bounded_prefix hkept
    cases hrecent : before.recentWorkspacePaths with
    | nil => exact hempty
    | cons first rest =>
      have hpaths := (deduplicated_recent hvalid hpinned).trans hrecent
      obtain ⟨more, rfl⟩ := bounded_first hkept hpaths
      exact candidateFits_sublist (singleton_sublist.mpr mem_cons_self) hkeptFits

theorem callKeeps_iff_room (hparse : ReadsBack parse)
    (hread : (readStoredWorkspaceMemory parse c.canonical file).diagnostic = none)
    (hrevision : (readStoredWorkspaceMemory parse c.canonical file).storedMemory.revision <
      maximumSafeInteger) :
    CallKeeps parse c file ↔
      Room c (readStoredWorkspaceMemory parse c.canonical file).storedMemory := by
  obtain ⟨hvalid, -⟩ := read_valid hread
  have houtcome := call_outcome hparse hread hrevision
  rw [CallKeeps]
  generalize hcurrent : readStoredWorkspaceMemory parse c.canonical file = current at *
  obtain ⟨before, diagnostic⟩ := current
  subst hread
  cases hcall : call parse c file with
  | mk result left =>
  rw [hcall] at houtcome
  cases houtcome with
  | unchanged hupdate =>
    have hboth : Keeps parse c file before ⟨before, none⟩ file ⟨before, none⟩ ∧ Room c before :=
      unchanged_keeps hvalid hupdate
    rw [hcurrent]
    exact iff_of_true hboth.1 hboth.2
  | refused diagnostic hchange hfits =>
    rw [hcurrent]
    exact (refused_keeps_iff diagnostic).trans (refused_room_iff hvalid hchange hfits).symm
  | written next hupdate hfits hnext hsucc =>
    rw [read_serialized hparse c.canonical hnext (by omega) hfits]
    exact (written_keeps_iff hvalid hupdate hfits hnext hsucc hrevision).trans
      (written_room_iff hvalid hupdate hfits).symm

end Call

/-! ## Runs -/

section Runs

variable {parse : List UInt8 → Option Json}

variable {file : Option (List UInt8)}

/-- The file holds a record that was written. -/
def Recorded (file : Option (List UInt8)) : Prop :=
  ∃ next : StoredWorkspaceMemory, next.Valid ∧ next.revision ≤ maximumSafeInteger ∧
    memoryFits next = true ∧ file = some (serializedMemory next)

theorem recorded_read (hparse : ReadsBack parse) (canonical : String → Option String)
    (h : Recorded file) :
    (readStoredWorkspaceMemory parse canonical file).diagnostic = none := by
  obtain ⟨next, hvalid, hrevision, hfits, rfl⟩ := h
  rw [read_serialized hparse canonical hvalid hrevision hfits]

theorem read_revision (canonical canonical' : String → Option String)
    (file : Option (List UInt8)) :
    (readStoredWorkspaceMemory parse canonical file).storedMemory.revision =
      (readStoredWorkspaceMemory parse canonical' file).storedMemory.revision := by
  have hlegacy (canonical : String → Option String) (legacy : LegacyStoredWorkspaceMemory) :
      (migratedLegacyMemory canonical legacy).storedMemory.revision = 0 := by
    rw [migratedLegacyMemory]
    split <;> rfl
  cases file with
  | none => rfl
  | some source =>
    rw [readStoredWorkspaceMemory, readStoredWorkspaceMemory]
    split
    · rfl
    cases parse source with
    | none => rfl
    | some parsed =>
      dsimp only [readParsed]
      cases validStoredMemory parsed with
      | some memory => rfl
      | none =>
        dsimp only
        cases validV1StoredMemory parsed with
        | some v1 => rfl
        | none =>
          dsimp only
          cases validLegacyStoredMemory parsed with
          | some legacy =>
            dsimp only
            rw [hlegacy, hlegacy]
          | none => dsimp only

theorem call_file (hparse : ReadsBack parse) (c : Call) (file : Option (List UInt8)) :
    (call parse c file).2 = file ∨ Recorded (call parse c file).2 ∧ ∀ canonical,
      (readStoredWorkspaceMemory parse canonical (call parse c file).2).storedMemory.revision =
        (readStoredWorkspaceMemory parse canonical file).storedMemory.revision + 1 := by
  by_cases hread : (readStoredWorkspaceMemory parse c.canonical file).diagnostic = none
  · obtain ⟨-, hmax⟩ := read_valid hread
    by_cases hrevision :
      (readStoredWorkspaceMemory parse c.canonical file).storedMemory.revision < maximumSafeInteger
    · have houtcome := call_outcome hparse hread hrevision
      generalize call parse c file = made at houtcome ⊢
      cases houtcome with
      | unchanged _ => exact .inl rfl
      | refused _ _ _ => exact .inl rfl
      | written next _ hfits hnext hsucc =>
        refine .inr ⟨⟨next, hnext, by omega, hfits, rfl⟩, fun canonical => ?_⟩
        rw [read_serialized hparse canonical hnext (by omega) hfits,
          read_revision canonical c.canonical]
        exact hsucc
    · -- at the last revision only a call that changes nothing is settled
      left
      rw [call, updateWorkspaceMemory, if_neg (not_not_intro hread)]
      by_cases hchange : c.operation.update c.path
          (readStoredWorkspaceMemory parse c.canonical file).storedMemory = .noChange
      · rw [if_neg (fun h => h.1 hchange), hchange]
        rfl
      · rw [if_pos ⟨hchange, by omega⟩]
  · left
    rw [call, updateWorkspaceMemory, if_pos hread]

theorem after_file (hparse : ReadsBack parse) (file : Option (List UInt8)) (calls : List Call) :
    after parse file calls = file ∨ Recorded (after parse file calls) := by
  induction calls generalizing file with
  | nil => exact .inl rfl
  | cons c calls ih =>
    have hcall := (call_file hparse c file).imp_right And.left
    have hrest := ih (call parse c file).2
    show after parse (call parse c file).2 calls = file ∨
      Recorded (after parse (call parse c file).2 calls)
    cases hrest with
    | inr hrecorded => exact .inr hrecorded
    | inl hsame =>
      rw [hsame]
      exact hcall

theorem after_read (hparse : ReadsBack parse) {canonical : String → Option String}
    (hread : (readStoredWorkspaceMemory parse canonical file).diagnostic = none) (calls : List Call) :
    (readStoredWorkspaceMemory parse canonical (after parse file calls)).diagnostic = none := by
  cases after_file hparse file calls with
  | inl hsame => rw [hsame, hread]
  | inr hrecorded => exact recorded_read hparse canonical hrecorded

/-- The revision tells the files of a run apart: a later one is the same file, or its revision is
greater. -/
theorem revision_tells_apart (hparse : ReadsBack parse) (canonical : String → Option String)
    (file : Option (List UInt8)) (calls more : List Call) :
    after parse file (calls ++ more) = after parse file calls ∨
      (readStoredWorkspaceMemory parse canonical (after parse file calls)).storedMemory.revision <
        (readStoredWorkspaceMemory parse canonical
          (after parse file (calls ++ more))).storedMemory.revision := by
  rw [after, foldl_append]
  show after parse (after parse file calls) more = _ ∨ _ < (readStoredWorkspaceMemory parse
    canonical (after parse (after parse file calls) more)).storedMemory.revision
  generalize after parse file calls = start
  induction more generalizing start with
  | nil => exact .inl rfl
  | cons c more ih =>
    show after parse (call parse c start).2 more = start ∨ _ < (readStoredWorkspaceMemory parse
      canonical (after parse (call parse c start).2 more)).storedMemory.revision
    cases call_file hparse c start with
    | inl hsame =>
      rw [hsame]
      exact ih start
    | inr hwritten =>
      have hnext := hwritten.2 canonical
      right
      cases ih (call parse c start).2 with
      | inl hsame =>
        rw [hsame]
        omega
      | inr hgreater => omega

theorem read_readsBack : ReadsBack Json.read := by
  intro memory _
  have hnumber (n : Nat) : (Json.ofNat n).Counting := ⟨n, rfl⟩
  have hlast : (Json.ofOption Json.string memory.lastWorkspacePath).Counting := by
    cases memory.lastWorkspacePath <;> trivial
  have htexts (paths : List String) : (Json.texts paths).Counting := by
    show Json.CountingItems (paths.map Json.string)
    induction paths with
    | nil => trivial
    | cons path paths ih => exact ⟨trivial, ih⟩
  exact Json.read_pretty_line memory.value
    ⟨hnumber 2, hnumber _, hlast, htexts _, htexts _, trivial⟩

/-- A pin is written with a greater revision. -/
theorem revision_tells_apart_pin :
    let pin : Call := ⟨.pin, "/a", fun _ => none⟩
    after Json.read none ([] ++ [pin]) = after Json.read none [] ∨
      (readStoredWorkspaceMemory Json.read pin.canonical
          (after Json.read none [])).storedMemory.revision <
        (readStoredWorkspaceMemory Json.read pin.canonical
          (after Json.read none ([] ++ [pin]))).storedMemory.revision :=
  revision_tells_apart read_readsBack _ none [] _

/-- After every run of calls on a file that can be read, the file can be read, and the next call
keeps what it is to keep exactly where there is room. -/
theorem run_keeps_iff (hparse : ReadsBack parse) (file : Option (List UInt8)) (calls : List Call)
    (c : Call) (hread : (readStoredWorkspaceMemory parse c.canonical file).diagnostic = none)
    (hrevision : (readStoredWorkspaceMemory parse c.canonical
      (after parse file calls)).storedMemory.revision < maximumSafeInteger) :
    (readStoredWorkspaceMemory parse c.canonical (after parse file calls)).diagnostic = none ∧
      (CallKeeps parse c (after parse file calls) ↔
        Room c (readStoredWorkspaceMemory parse c.canonical
          (after parse file calls)).storedMemory) := by
  have hafter := after_read hparse hread calls
  exact ⟨hafter, callKeeps_iff_room hparse hafter hrevision⟩

/-- Two paths are pinned and the first is unpinned again. -/
theorem run_keeps_iff_unpin :
    let calls : List Call := [⟨.pin, "/a", fun _ => none⟩, ⟨.pin, "/b", fun _ => none⟩]
    let c : Call := ⟨.unpin, "/a", fun _ => none⟩
    (readStoredWorkspaceMemory Json.read c.canonical (after Json.read none calls)).diagnostic =
        none ∧
      (CallKeeps Json.read c (after Json.read none calls) ↔
        Room c (readStoredWorkspaceMemory Json.read c.canonical
          (after Json.read none calls)).storedMemory) :=
  run_keeps_iff read_readsBack none _ _ rfl (by decide +kernel)

/-! ## Where there is no room -/

section Crowded

/-- A long recent path and a pinned one. -/
def crowded (recent pinned : String) : StoredWorkspaceMemory := ⟨0, none, [recent], [pinned]⟩

variable {recent pinned : String}

theorem crowded_valid (h : recent ≠ pinned) : (crowded recent pinned).Valid where
  recentCount := Nat.le_of_ble_eq_true rfl
  pinnedCount := Nat.le_of_ble_eq_true rfl
  recentOnce := nodup_singleton _
  pinnedOnce := nodup_singleton _
  apart := by
    intro path hrecent hpinned
    exact h ((mem_singleton.mp hrecent).symm.trans (mem_singleton.mp hpinned))
  lastListed := by
    intro path hlast
    cases hlast

theorem zero_lt_safe : 0 < maximumSafeInteger := by decide

theorem textSize_letters (n : Nat) {c : Char}
    (h : (JsonText.encode (JsonText.escape c)).length = 1) :
    JsonText.textSize (String.ofList (List.replicate n c)).toList = n := by
  rw [String.toList_ofList, JsonText.textSize_replicate, h, Nat.mul_one]

/-- The sizes: with both paths alone the record fits, and with the pinned one last only without
the recent one. -/
theorem crowded_sizes (hrecent : JsonText.textSize recent.toList = 60000)
    (hpinned : JsonText.textSize pinned.toList = 3000) :
    memoryFits (crowded recent pinned) = true ∧ candidateFits (some pinned) [pinned] 1 [] = true ∧
      candidateFits (some pinned) [pinned] 1 [recent] = false := by
  have hzero : (toString 0).toList.length = 1 := rfl
  have hone : (toString 1).toList.length = 1 := rfl
  have hlist (path : String) : listBytes [path] = 12 + JsonText.textSize path.toList := by
    rw [listBytes, if_neg (cons_ne_nil _ _), map_singleton, sum_singleton]
    omega
  have hnil : listBytes [] = 2 := rfl
  refine ⟨?_, ?_, ?_⟩
  · apply (memoryFits_iff _).mpr
    rw [length_serialized, crowded, hzero, hlist, hlist, lastBytes, hrecent, hpinned]
    decide
  · apply (memoryFits_iff _).mpr
    rw [length_serialized, hone, hlist, hnil, lastBytes, hpinned]
    decide
  · apply Bool.eq_false_of_not_eq_true
    intro hfits
    have hle := (memoryFits_iff _).mp hfits
    rw [length_serialized, hone, hlist, hlist, lastBytes, hrecent, hpinned] at hle
    exact absurd hle (by decide)

theorem crowded_not_keeps (hne : recent ≠ pinned)
    (hrecent : JsonText.textSize recent.toList = 60000)
    (hpinned : JsonText.textSize pinned.toList = 3000) (canonical : String → Option String) :
    readStoredWorkspaceMemory Json.read canonical
          (some (serializedMemory (crowded recent pinned))) =
        ⟨crowded recent pinned, none⟩ ∧
      ¬ CallKeeps Json.read ⟨.remember, pinned, canonical⟩
        (some (serializedMemory (crowded recent pinned))) := by
  obtain ⟨hfits, hempty, hfirst⟩ := crowded_sizes hrecent hpinned
  have hrevision : (crowded recent pinned).revision < maximumSafeInteger := zero_lt_safe
  have hread := read_serialized read_readsBack canonical (crowded_valid hne)
    (Nat.le_of_lt hrevision) hfits
  refine ⟨hread, ?_⟩
  intro hkeeps
  have hroom := (callKeeps_iff_room (c := ⟨.remember, pinned, canonical⟩) read_readsBack
    (by rw [hread]) (by rw [hread]; exact hrevision)).mp hkeeps
  rw [hread] at hroom
  have hlast : (crowded recent pinned).lastWorkspacePath ≠ some pinned :=
    (Option.some_ne_none _).symm
  have hone := hroom (mem_singleton_self pinned) hlast hempty
  exact Bool.true_eq_false.mp (hone.symm.trans hfirst)

end Crowded

/-- The pinned path is refused although the record would fit without the recent one. -/
theorem crowded_refused :
    let pinned := String.ofList (List.replicate 3000 'y')
    let c : Call := ⟨.remember, pinned, fun _ => none⟩
    let file := some (serializedMemory (crowded (String.ofList (List.replicate 60000 'x')) pinned))
    ReadsBack Json.read ∧
      (readStoredWorkspaceMemory Json.read c.canonical file).diagnostic = none ∧
      (readStoredWorkspaceMemory Json.read c.canonical file).storedMemory.revision <
        maximumSafeInteger ∧
      ¬ CallKeeps Json.read c (after Json.read file []) := by
  have hne : String.ofList (List.replicate 60000 'x') ≠
      String.ofList (List.replicate 3000 'y') := by
    intro heq
    have hlength := congrArg String.length heq
    rw [String.length_ofList, String.length_ofList, length_replicate, length_replicate] at hlength
    omega
  intro pinned c file
  obtain ⟨hread, hkeeps⟩ := crowded_not_keeps hne (textSize_letters 60000 (c := 'x') rfl)
    (textSize_letters 3000 (c := 'y') rfl) (fun _ => none)
  refine ⟨read_readsBack, ?_, ?_, hkeeps⟩
  · rw [hread]
  · rw [hread]
    exact zero_lt_safe

end Runs

end Orkworksd.Desktop.WorkspaceMemory
