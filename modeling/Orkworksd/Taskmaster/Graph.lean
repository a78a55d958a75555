import Orkworksd.Lib.Except
import Orkworksd.Taskmaster.Completion

/- The recommendation graph (`taskmaster/store.rs`): `validate_graph_records`
   with its messages, and the identifiers and file names of the store.

   A recommendation may be a rollup parent that lists its members, and a rolled-up
   member points back at its parent. `Graph.Ok` states what the validator accepts:
   distinct ids and, for every record, `Graph.Node` against the lookup by id.
   `validateGraphRecords_ok_iff` connects the two; everything else in this
   development reasons about `Graph.Ok`, which does not depend on the order of the
   records (`Graph.Ok.congr`). `Graph.Ok.rewritten` is the rule for an operation
   that rewrites records in their places. -/
namespace Orkworksd.Taskmaster
open List

/-! ## Identifiers and file names -/

def isAsciiAlphanumeric (b : UInt8) : Bool :=
  (0x30 ≤ b && b ≤ 0x39) || (0x41 ≤ b && b ≤ 0x5a) || (0x61 ≤ b && b ≤ 0x7a)

/-- The bytes a file name keeps: letters, digits, `-` and `_`. -/
def isPlain (b : UInt8) : Bool := isAsciiAlphanumeric b || b == 0x2d || b == 0x5f

def validId (id : String) : Bool :=
  let legacyId := !id.isEmpty && (utf8 id).all isPlain
  let stableRollupId := id.startsWith "rollup:"
    && ((utf8 id).drop 7).length == 64 && ((utf8 id).drop 7).all isAsciiHexdigit
  legacyId || stableRollupId

/-- One upper-case hexadecimal digit. -/
def upperHex (n : Nat) : Char := if n < 10 then Char.ofNat (0x30 + n) else Char.ofNat (0x37 + n)

def encodeByte (b : UInt8) : List Char :=
  if isPlain b then [Char.ofNat b.toNat]
  else ['%', upperHex (b.toNat / 16), upperHex (b.toNat % 16)]

def filenameComponent (id : String) : String := String.ofList ((utf8 id).flatMap encodeByte)

def recommendationFilename (id : String) : String := filenameComponent id ++ ".json"

/-! ### Distinct ids have distinct file names -/

theorem utf8_injective : Function.Injective utf8 := by
  intro a b h
  exact String.toByteArray_inj.mp (ByteArray.ext (Array.toList_inj.mp h))

theorem charOfNat_inj : ∀ m < 256, ∀ n < 256, Char.ofNat m = Char.ofNat n → m = n := by
  intro m hm n hn h
  have hval : ∀ k < 256, (Char.ofNat k).toNat = k := by decide +kernel
  rw [← hval m hm, ← hval n hn, h]

theorem upperHex_inj : ∀ m < 16, ∀ n < 16, upperHex m = upperHex n → m = n := by decide

theorem encodeByte_append_inj {a b : UInt8} {x y : List Char}
    (h : encodeByte a ++ x = encodeByte b ++ y) : a = b ∧ x = y := by
  have ha := a.toNat_lt
  have hb := b.toNat_lt
  have hpercent : ∀ c : UInt8, isPlain c = true → Char.ofNat c.toNat ≠ '%' := by
    intro c hc heq
    have hnat : c.toNat = 0x25 := charOfNat_inj _ c.toNat_lt _ (by decide) (heq.trans (by decide))
    have : c = 0x25 := UInt8.toNat_inj.mp hnat
    rw [this] at hc
    revert hc
    decide
  unfold encodeByte at h
  by_cases hpa : isPlain a = true <;> by_cases hpb : isPlain b = true
  · simp only [hpa, hpb, if_true, singleton_append, List.cons.injEq] at h
    exact ⟨UInt8.toNat_inj.mp (charOfNat_inj _ ha _ hb h.1), h.2⟩
  · simp only [hpa, hpb, if_true, Bool.false_eq_true, if_false, cons_append,
      nil_append, List.cons.injEq] at h
    exact absurd h.1 (hpercent a hpa)
  · simp only [hpa, hpb, if_true, Bool.false_eq_true, if_false, cons_append,
      nil_append, List.cons.injEq] at h
    exact absurd h.1.symm (hpercent b hpb)
  · simp only [hpa, hpb, Bool.false_eq_true, if_false, cons_append, nil_append,
      List.cons.injEq, true_and] at h
    obtain ⟨hhi, hlo, hrest⟩ := h
    have hhi := upperHex_inj _ (by omega) _ (by omega) hhi
    have hlo := upperHex_inj _ (by omega) _ (by omega) hlo
    exact ⟨UInt8.toNat_inj.mp (by omega), hrest⟩

theorem flatMap_encodeByte_injective : Function.Injective (List.flatMap encodeByte) := by
  intro x y h
  induction x generalizing y with
  | nil =>
    cases y with
    | nil => rfl
    | cons b y =>
      rw [flatMap_nil, flatMap_cons] at h
      have : encodeByte b ≠ [] := by unfold encodeByte; split <;> simp
      simp [this] at h
  | cons a x ih =>
    cases y with
    | nil =>
      rw [flatMap_nil, flatMap_cons] at h
      have : encodeByte a ≠ [] := by unfold encodeByte; split <;> simp
      simp [this] at h
    | cons b y =>
      rw [flatMap_cons, flatMap_cons] at h
      obtain ⟨rfl, hrest⟩ := encodeByte_append_inj h
      rw [ih hrest]

theorem filenameComponent_injective : Function.Injective filenameComponent := by
  intro a b h
  exact utf8_injective (flatMap_encodeByte_injective (String.ofList_injective h))

theorem recommendationFilename_injective : Function.Injective recommendationFilename := by
  intro a b h
  exact filenameComponent_injective ((String.append_left_inj _).mp h)

/-! ## Validation -/

def findById (records : List Recommendation) (id : String) : Option Recommendation :=
  records.find? (fun recommendation => recommendation.id == id)

/-- A parent in one of these states owns its members. -/
def activeParent : RecommendationStatus → Bool
  | .proposed | .executing => true
  | _ => false

/-- The member ids of a parent are distinct and known. -/
def checkMemberIds (records : List Recommendation) (parent : String) :
    List String → List String → Except StoreError Unit
  | _, [] => .ok ()
  | seen, memberId :: memberIds =>
    if seen.contains memberId then
      .error (.graphInvariant
        ("parent " ++ parent ++ " lists member " ++ memberId ++ " more than once"))
    else if (findById records memberId).isNone then
      .error (.graphInvariant
        ("parent " ++ parent ++ " references missing member " ++ memberId))
    else checkMemberIds records parent (memberId :: seen) memberIds

def memberDedupeKeys (look : String → Option Recommendation) (memberIds : List String) :
    List String :=
  memberIds.filterMap (fun memberId => (look memberId).map (·.dedupeKey))

/-- `if condition { return Err(StoreError::GraphInvariant(message)) }`. -/
def reject (condition : Bool) (message : String) : Except StoreError Unit :=
  if condition then .error (.graphInvariant message) else .ok ()

/-- The first loop of `validate_graph_records` up to the active parents. -/
def checkRecord (digests : Digests) (records : List Recommendation)
    (recommendation : Recommendation) : Except StoreError Unit := do
  reject (recommendation.rollupMemberIds.length != recommendation.rollupMemberDedupeKeys.length)
    ("parent " ++ recommendation.id ++ " has mismatched member and dedupe-key lists")
  checkMemberIds records recommendation.id [] recommendation.rollupMemberIds
  reject (!recommendation.rollupMemberIds.isEmpty
      && recommendation.id != stableRollupId digests recommendation.rollupMemberIds)
    ("parent " ++ recommendation.id ++ " does not match its stable member identity")
  reject (sortStrings recommendation.rollupMemberDedupeKeys
      != sortStrings (memberDedupeKeys (findById records) recommendation.rollupMemberIds))
    ("parent " ++ recommendation.id ++ " has member dedupe keys that do not match its members")
  reject (recommendation.rolledUpBy.isSome && recommendation.status != .rolledUp)
    ("non-rolled-up recommendation " ++ recommendation.id ++ " has a current parent")
  reject (recommendation.status == .rolledUp && recommendation.rolledUpBy.isNone)
    ("rolled-up recommendation " ++ recommendation.id ++ " has no current parent")

/-- An active parent claims its members; `active` is the map of earlier claims. -/
def claimMembers (records : List Recommendation) (parent : String) :
    List (String × String) → List String → Except StoreError (List (String × String))
  | active, [] => .ok active
  | active, memberId :: memberIds =>
    if !(findById records memberId).any (fun member =>
        member.status == .rolledUp && member.rolledUpBy == some parent) then
      .error (.graphInvariant ("active parent " ++ parent ++ " does not own member " ++ memberId))
    else match active.lookup memberId with
      | some previousParent =>
        .error (.graphInvariant ("member " ++ memberId ++ " belongs to active parents "
          ++ previousParent ++ " and " ++ parent))
      | none => claimMembers records parent ((memberId, parent) :: active) memberIds

/-- Only an active parent claims its members. -/
def claimIfActive (records : List Recommendation) (recommendation : Recommendation)
    (active : List (String × String)) : Except StoreError (List (String × String)) :=
  if activeParent recommendation.status then
    claimMembers records recommendation.id active recommendation.rollupMemberIds
  else .ok active

def checkRecords (digests : Digests) (records : List Recommendation) :
    List (String × String) → List Recommendation → Except StoreError Unit
  | _, [] => .ok ()
  | active, recommendation :: rest => do
    checkRecord digests records recommendation
    let active ← claimIfActive records recommendation active
    checkRecords digests records active rest

/-- The second loop: a rolled-up record is listed once by its parent. -/
def checkRolledUp (records : List Recommendation) : List Recommendation → Except StoreError Unit
  | [] => .ok ()
  | recommendation :: rest =>
    if recommendation.status != .rolledUp then checkRolledUp records rest
    else
      let parentId := recommendation.rolledUpBy.getD ""
      match findById records parentId with
      | none => .error (.graphInvariant
          ("member " ++ recommendation.id ++ " points to missing parent " ++ parentId))
      | some parent =>
        if parent.rollupMemberIds.count recommendation.id != 1 then
          .error (.graphInvariant ("parent " ++ parentId ++ " does not list member "
            ++ recommendation.id ++ " exactly once"))
        else checkRolledUp records rest

def validateGraphRecords (digests : Digests) (records : List Recommendation) :
    Except StoreError Unit := do
  reject (!decide (records.map (·.id)).Nodup) "duplicate recommendation IDs"
  checkRecords digests records [] records
  checkRolledUp records records

/-! ## What the validator accepts -/

namespace Graph

/-- What the validator asks of one record, given the lookup by id. -/
structure Node (digests : Digests) (look : String → Option Recommendation)
    (recommendation : Recommendation) : Prop where
  lengths : recommendation.rollupMemberIds.length = recommendation.rollupMemberDedupeKeys.length
  nodup : recommendation.rollupMemberIds.Nodup
  known : ∀ memberId ∈ recommendation.rollupMemberIds, (look memberId).isSome
  identity : recommendation.rollupMemberIds ≠ [] →
    recommendation.id = stableRollupId digests recommendation.rollupMemberIds
  keys : sortStrings recommendation.rollupMemberDedupeKeys =
    sortStrings (memberDedupeKeys look recommendation.rollupMemberIds)
  rolledUp : recommendation.rolledUpBy.isSome = true ↔ recommendation.status = .rolledUp
  owns : activeParent recommendation.status = true → ∀ memberId ∈ recommendation.rollupMemberIds,
    ∃ member, look memberId = some member ∧ member.status = .rolledUp ∧
      member.rolledUpBy = some recommendation.id
  parent : ∀ parentId, recommendation.rolledUpBy = some parentId →
    ∃ parent, look parentId = some parent ∧ parent.rollupMemberIds.count recommendation.id = 1

structure Ok (digests : Digests) (records : List Recommendation) : Prop where
  ids : (records.map (·.id)).Nodup
  nodes : ∀ recommendation ∈ records, Node digests (findById records) recommendation

end Graph

/-! ### Soundness and completeness of the validator -/

theorem reject_eq_ok {condition : Bool} {message : String} :
    reject condition message = .ok () ↔ condition = false := by
  cases condition <;> simp [reject]

section validator
variable {digests : Digests} {records : List Recommendation}

variable {parent : String} {memberIds : List String}

theorem checkMemberIds_ok {seen : List String} :
    checkMemberIds records parent seen memberIds = .ok () ↔
      memberIds.Nodup ∧ (∀ m ∈ memberIds, m ∉ seen) ∧
        ∀ m ∈ memberIds, (findById records m).isSome := by
  induction memberIds generalizing seen with
  | nil => simp [checkMemberIds]
  | cons m ms ih =>
    unfold checkMemberIds
    by_cases hseen : m ∈ seen
    · simp [hseen]
    · by_cases hknown : (findById records m).isNone
      · simp only [contains_eq_mem, hseen, decide_false, Bool.false_eq_true, if_false, hknown,
          if_true, reduceCtorEq, false_iff, not_and]
        intro _ _ hall
        have := hall m mem_cons_self
        rw [Option.isNone_iff_eq_none] at hknown
        simp [hknown] at this
      · have hsome : (findById records m).isSome := by
          simpa [Option.isSome_iff_ne_none] using hknown
        simp only [contains_eq_mem, hseen, decide_false, Bool.false_eq_true, if_false, hknown,
          ih, mem_cons, not_or, nodup_cons]
        constructor
        · rintro ⟨hnd, hdis, hall⟩
          refine ⟨⟨fun hm => (hdis m hm).1 rfl, hnd⟩, ?_, ?_⟩
          · rintro x (rfl | hx)
            · exact hseen
            · exact (hdis x hx).2
          · rintro x (rfl | hx)
            · exact hsome
            · exact hall x hx
        · rintro ⟨⟨hm, hnd⟩, hdis, hall⟩
          refine ⟨hnd, ?_, fun x hx => hall x (.inr hx)⟩
          intro x hx
          exact ⟨fun heq => hm (heq ▸ hx), hdis x (.inr hx)⟩

theorem checkRecord_ok {r : Recommendation} :
    checkRecord digests records r = .ok () ↔
      r.rollupMemberIds.length = r.rollupMemberDedupeKeys.length ∧
      (r.rollupMemberIds.Nodup ∧ ∀ m ∈ r.rollupMemberIds, (findById records m).isSome) ∧
      (r.rollupMemberIds ≠ [] → r.id = stableRollupId digests r.rollupMemberIds) ∧
      sortStrings r.rollupMemberDedupeKeys =
        sortStrings (memberDedupeKeys (findById records) r.rollupMemberIds) ∧
      (r.rolledUpBy.isSome = true ↔ r.status = .rolledUp) := by
  have hiff : (r.rolledUpBy.isSome = true ↔ r.status = .rolledUp) ↔
      (r.rolledUpBy.isSome && r.status != .rolledUp) = false ∧
        (r.status == .rolledUp && r.rolledUpBy.isNone) = false := by
    cases r.rolledUpBy <;> simp
  unfold checkRecord
  simp only [seq_eq_ok, reject_eq_ok, checkMemberIds_ok, not_mem_nil, not_false_eq_true,
    implies_true, true_and, hiff]
  simp

/-- `parent` owns member `m`. -/
def Owns (look : String → Option Recommendation) (parent m : String) : Prop :=
  ∃ member, look m = some member ∧ member.status = .rolledUp ∧ member.rolledUpBy = some parent

theorem owned_iff {m : String} : (findById records m).any (fun member =>
      member.status == .rolledUp && member.rolledUpBy == some parent) = true ↔
      Owns (findById records) parent m := by
  rw [Option.any_eq_true]
  simp [Owns]

variable {active : List (String × String)}

theorem claimMembers_owns {active' : List (String × String)}
    (h : claimMembers records parent active memberIds = .ok active') :
    ∀ m ∈ memberIds, Owns (findById records) parent m := by
  induction memberIds generalizing active with
  | nil => simp
  | cons m ms ih =>
    unfold claimMembers at h
    split at h
    · cases h
    · rename_i howned
      split at h
      · cases h
      · intro x hx
        rcases mem_cons.mp hx with rfl | hx
        · exact owned_iff.mp (by simpa using howned)
        · exact ih h x hx

/-- Claims are made by the parents the members point at. -/
def Claimed (look : String → Option Recommendation) (active : List (String × String)) : Prop :=
  ∀ claim ∈ active, Owns look claim.2 claim.1

/-- A parent that owns all its members, none of which it has claimed yet, gets
them: a second claim would point the member at two parents. -/
theorem claimMembers_complete (hnd : memberIds.Nodup)
    (howns : ∀ m ∈ memberIds, Owns (findById records) parent m)
    (hclaimed : Claimed (findById records) active)
    (hnew : ∀ claim ∈ active, claim.2 = parent → claim.1 ∉ memberIds) :
    ∃ active', claimMembers records parent active memberIds = .ok active' ∧
      Claimed (findById records) active' ∧
      ∀ claim ∈ active', claim ∈ active ∨ claim.2 = parent := by
  induction memberIds generalizing active with
  | nil => exact ⟨active, rfl, hclaimed, fun c hc => .inl hc⟩
  | cons m ms ih =>
    have hown := howns m mem_cons_self
    have hfree : active.lookup m = none := by
      rw [lookup_eq_none_iff]
      intro claim hclaim
      rw [bne_iff_ne]
      rintro rfl
      obtain ⟨member, hlook, -, hby⟩ := hclaimed claim hclaim
      obtain ⟨member', hlook', -, hby'⟩ := hown
      rw [hlook] at hlook'
      cases hlook'
      rw [hby, Option.some.injEq] at hby'
      exact hnew claim hclaim hby' mem_cons_self
    obtain ⟨active', hok, hcl, hsub⟩ := @ih ((m, parent) :: active) hnd.of_cons
      (fun x hx => howns x (mem_cons_of_mem _ hx))
      (by
        intro claim hclaim
        rcases mem_cons.mp hclaim with rfl | hclaim
        · exact hown
        · exact hclaimed claim hclaim)
      (by
        intro claim hclaim hpar
        rcases mem_cons.mp hclaim with rfl | hclaim
        · exact (nodup_cons.mp hnd).1
        · exact fun hm => hnew claim hclaim hpar (mem_cons_of_mem _ hm))
    refine ⟨active', ?_, hcl, ?_⟩
    · unfold claimMembers
      rw [owned_iff.mpr hown, hfree]
      simpa using hok
    · intro claim hclaim
      rcases hsub claim hclaim with hc | hc
      · rcases mem_cons.mp hc with rfl | hc
        · exact .inr rfl
        · exact .inl hc
      · exact .inr hc

variable {rest : List Recommendation}

theorem checkRecords_sound (h : checkRecords digests records active rest = .ok ()) :
    ∀ r ∈ rest, checkRecord digests records r = .ok () ∧
      (activeParent r.status = true → ∀ m ∈ r.rollupMemberIds, Owns (findById records) r.id m) := by
  induction rest generalizing active with
  | nil => simp
  | cons r rest ih =>
    unfold checkRecords at h
    rw [seq_eq_ok, bind_eq_ok] at h
    obtain ⟨hrec, active', hclaim, hrest⟩ := h
    intro x hx
    rcases mem_cons.mp hx with rfl | hx
    · refine ⟨hrec, ?_⟩
      intro hactive
      rw [claimIfActive, if_pos hactive] at hclaim
      exact claimMembers_owns hclaim
    · exact ih hrest x hx

theorem checkRecords_complete (hrec : ∀ r ∈ rest, checkRecord digests records r = .ok ())
    (hnd : ∀ r ∈ rest, r.rollupMemberIds.Nodup)
    (howns : ∀ r ∈ rest, activeParent r.status = true → ∀ m ∈ r.rollupMemberIds,
      Owns (findById records) r.id m) (hids : (rest.map (·.id)).Nodup)
    (hclaimed : Claimed (findById records) active)
    (hnew : ∀ claim ∈ active, ∀ r ∈ rest, claim.2 ≠ r.id) :
    checkRecords digests records active rest = .ok () := by
  induction rest generalizing active with
  | nil => rfl
  | cons r rest ih =>
    rw [map_cons, nodup_cons] at hids
    have hother : ∀ x ∈ rest, r.id ≠ x.id := by
      intro x hx heq
      exact hids.1 (heq ▸ mem_map_of_mem hx)
    have hstep : ∃ active', claimIfActive records r active = .ok active' ∧
        Claimed (findById records) active' ∧
        ∀ claim ∈ active', claim ∈ active ∨ claim.2 = r.id := by
      unfold claimIfActive
      by_cases hactive : activeParent r.status = true
      · rw [if_pos hactive]
        refine claimMembers_complete (hnd r mem_cons_self)
          (howns r mem_cons_self hactive) hclaimed ?_
        intro claim hclaim heq
        exact absurd heq (hnew claim hclaim r mem_cons_self)
      · rw [if_neg hactive]
        exact ⟨active, rfl, hclaimed, fun c hc => .inl hc⟩
    obtain ⟨active', hok, hcl, hsub⟩ := hstep
    unfold checkRecords
    rw [seq_eq_ok, bind_eq_ok]
    refine ⟨hrec r mem_cons_self, active', hok, ?_⟩
    refine ih (fun x hx => hrec x (mem_cons_of_mem _ hx))
      (fun x hx => hnd x (mem_cons_of_mem _ hx))
      (fun x hx => howns x (mem_cons_of_mem _ hx)) hids.2 hcl ?_
    intro claim hclaim x hx
    rcases hsub claim hclaim with hc | hc
    · exact hnew claim hc x (mem_cons_of_mem _ hx)
    · rw [hc]
      exact hother x hx

theorem checkRolledUp_ok : checkRolledUp records rest = .ok () ↔ ∀ r ∈ rest, r.status = .rolledUp →
      ∃ parent, findById records (r.rolledUpBy.getD "") = some parent ∧
        parent.rollupMemberIds.count r.id = 1 := by
  induction rest with
  | nil => simp [checkRolledUp]
  | cons r rest ih =>
    unfold checkRolledUp
    by_cases hst : r.status = .rolledUp
    · simp only [hst, bne_self_eq_false, Bool.false_eq_true, if_false, mem_cons,
        forall_eq_or_imp, forall_const]
      cases hfind : findById records (r.rolledUpBy.getD "") with
      | none => simp
      | some parent =>
        by_cases hcount : parent.rollupMemberIds.count r.id = 1
        · simp [hcount, ih]
        · simp [hcount]
    · simp [hst, ih]

theorem validateGraphRecords_ok_iff :
    validateGraphRecords digests records = .ok () ↔ Graph.Ok digests records := by
  unfold validateGraphRecords
  rw [seq_eq_ok, seq_eq_ok, reject_eq_ok]
  simp only [Bool.not_eq_eq_eq_not, Bool.not_false, decide_eq_true_eq]
  constructor
  · rintro ⟨hids, hrecs, hrolled⟩
    refine ⟨hids, ?_⟩
    intro r hr
    obtain ⟨hrec, howns⟩ := checkRecords_sound hrecs r hr
    obtain ⟨hlen, ⟨hnd, hknown⟩, hident, hkeys, hiff⟩ := checkRecord_ok.mp hrec
    refine ⟨hlen, hnd, hknown, hident, hkeys, hiff, howns, ?_⟩
    intro parentId hby
    have hst : r.status = .rolledUp := hiff.mp (by simp [hby])
    obtain ⟨parent, hfind, hcount⟩ := checkRolledUp_ok.mp hrolled r hr hst
    rw [hby] at hfind
    exact ⟨parent, hfind, hcount⟩
  · intro hok
    refine ⟨hok.ids, ?_, ?_⟩
    · refine checkRecords_complete ?_ (fun r hr => (hok.nodes r hr).nodup)
        (fun r hr => (hok.nodes r hr).owns) hok.ids (by simp [Claimed]) (by simp)
      intro r hr
      have hnode := hok.nodes r hr
      exact checkRecord_ok.mpr ⟨hnode.lengths, ⟨hnode.nodup, hnode.known⟩, hnode.identity,
        hnode.keys, hnode.rolledUp⟩
    · refine checkRolledUp_ok.mpr ?_
      intro r hr hst
      have hnode := hok.nodes r hr
      obtain ⟨parentId, hby⟩ := Option.isSome_iff_exists.mp (hnode.rolledUp.mpr hst)
      rw [hby]
      exact hnode.parent parentId hby

end validator

/-! ### The accepted graphs, whatever the order of the records -/

section lookup
variable {records records' : List Recommendation}

variable {r : Recommendation}

variable {id : String}

theorem findById_mem (h : findById records id = some r) : r ∈ records ∧ r.id = id := by
  have hid := List.find?_some h
  exact ⟨mem_of_find?_eq_some h, by simpa using hid⟩

theorem findById_of_mem (hnd : (records.map (·.id)).Nodup) (hr : r ∈ records) :
    findById records r.id = some r := by
  induction records with
  | nil => cases hr
  | cons x xs ih =>
    rw [map_cons, nodup_cons] at hnd
    unfold findById
    rw [List.find?_cons]
    rcases mem_cons.mp hr with rfl | hr
    · simp
    · have hne : x.id ≠ r.id := fun heq => hnd.1 (heq ▸ mem_map_of_mem hr)
      have hfalse : (x.id == r.id) = false := by simpa using hne
      rw [hfalse]
      exact ih hnd.2 hr

theorem findById_eq_some_iff (hnd : (records.map (·.id)).Nodup) :
    findById records id = some r ↔ r ∈ records ∧ r.id = id := by
  refine ⟨findById_mem, ?_⟩
  rintro ⟨hr, rfl⟩
  exact findById_of_mem hnd hr

theorem findById_congr (hnd : (records.map (·.id)).Nodup) (hnd' : (records'.map (·.id)).Nodup)
    (hmem : ∀ r, r ∈ records ↔ r ∈ records') : findById records = findById records' := by
  funext id
  apply Option.ext
  intro r
  rw [findById_eq_some_iff hnd, findById_eq_some_iff hnd', hmem]

theorem Graph.Ok.congr {digests : Digests} (h : Graph.Ok digests records)
    (hnd' : (records'.map (·.id)).Nodup) (hmem : ∀ r, r ∈ records ↔ r ∈ records') :
    Graph.Ok digests records' := by
  refine ⟨hnd', ?_⟩
  intro r hr
  rw [← findById_congr h.ids hnd' hmem]
  exact h.nodes r ((hmem r).mpr hr)

end lookup

/-! ### Rewriting records in their places -/

/-- `after` is `before` up to fields the graph does not read, apart from the
status: both are rolled up or neither is, and `after` owns members only if `before` did. -/
structure SameNode (before after : Recommendation) : Prop where
  id : after.id = before.id
  dedupeKey : after.dedupeKey = before.dedupeKey
  memberIds : after.rollupMemberIds = before.rollupMemberIds
  memberKeys : after.rollupMemberDedupeKeys = before.rollupMemberDedupeKeys
  rolledUpBy : after.rolledUpBy = before.rolledUpBy
  rolledUp : after.status = .rolledUp ↔ before.status = .rolledUp
  active : activeParent after.status = true → activeParent before.status = true

theorem SameNode.refl (r : Recommendation) : SameNode r r :=
  ⟨rfl, rfl, rfl, rfl, rfl, Iff.rfl, fun h => h⟩

section rewritten
variable {digests : Digests} {look look' : String → Option Recommendation} {r r' : Recommendation}

/-- A record's neighbours only read its id, its dedupe key and its members, and whether it
is rolled up. -/
theorem Graph.Node.rewritten (h : Graph.Node digests look r) (hsame : SameNode r r')
    (hlook : ∀ (id : String) (x : Recommendation), look id = some x →
      ∃ x', look' id = some x' ∧ SameNode x x') : Graph.Node digests look' r' := by
  refine ⟨?_, ?_, ?_, ?_, ?_, ?_, ?_, ?_⟩
  · rw [hsame.memberIds, hsame.memberKeys]
    exact h.lengths
  · rw [hsame.memberIds]
    exact h.nodup
  · intro m hm
    obtain ⟨x, hx⟩ := Option.isSome_iff_exists.mp (h.known m (hsame.memberIds ▸ hm))
    obtain ⟨x', hx', -⟩ := hlook m x hx
    rw [hx']
    rfl
  · rw [hsame.memberIds, hsame.id]
    exact h.identity
  · have hkeys : memberDedupeKeys look' r.rollupMemberIds =
        memberDedupeKeys look r.rollupMemberIds := by
      refine filterMap_congr ?_
      intro m hm
      obtain ⟨x, hx⟩ := Option.isSome_iff_exists.mp (h.known m hm)
      obtain ⟨x', hx', hx''⟩ := hlook m x hx
      rw [hx, hx', Option.map_some, Option.map_some, hx''.dedupeKey]
    rw [hsame.memberKeys, hsame.memberIds, hkeys]
    exact h.keys
  · rw [hsame.rolledUpBy, hsame.rolledUp]
    exact h.rolledUp
  · intro hactive m hm
    obtain ⟨x, hx, hrolled, hparent⟩ := h.owns (hsame.active hactive) m (hsame.memberIds ▸ hm)
    obtain ⟨x', hx', hx''⟩ := hlook m x hx
    exact ⟨x', hx', hx''.rolledUp.mpr hrolled, hx''.rolledUpBy.trans (hsame.id ▸ hparent)⟩
  · intro parentId hp
    obtain ⟨x, hx, hcount⟩ := h.parent parentId (hsame.rolledUpBy ▸ hp)
    obtain ⟨x', hx', hx''⟩ := hlook parentId x hx
    refine ⟨x', hx', ?_⟩
    rw [hx''.memberIds, hsame.id]
    exact hcount

/-- Rewriting records in their places keeps the graph valid. -/
theorem Graph.Ok.rewritten {records records' : List Recommendation} (h : Graph.Ok digests records)
    (hnd' : (records'.map (·.id)).Nodup) (hold : ∀ r ∈ records, ∃ r' ∈ records', SameNode r r')
    (hnew : ∀ r' ∈ records', ∃ r ∈ records, SameNode r r') : Graph.Ok digests records' := by
  refine ⟨hnd', ?_⟩
  intro r' hr'
  obtain ⟨r, hr, hsame⟩ := hnew r' hr'
  refine (h.nodes r hr).rewritten hsame ?_
  intro id x hx
  obtain ⟨hmem, rfl⟩ := findById_mem hx
  obtain ⟨x', hx', hsame'⟩ := hold x hmem
  exact ⟨x', hsame'.id ▸ findById_of_mem hnd' hx', hsame'⟩

end rewritten

end Orkworksd.Taskmaster
