import Orkworksd.Lib.JsonOrder
import Orkworksd.Lib.JsonRead

/- The strict reader of documents (`harness/definition.rs`, `parse_strict_json`), and how a
   derived deserializer takes a record that denies unknown fields.

   The document is read twice: `StrictJson` visits it to refuse a name that an object has
   twice, and the derived deserializer reads the record. serde takes a record from an object
   and also from an array with one item for each field, in the order of their declaration.
   The diagnostics are left out: a document is read or it is not.

   `Carries` says what a record that was read has been read from, and
   `parseStrictJson_source` that this is all there was. -/
namespace Orkworksd.Harness
open Lib List

/-! ## The visit -/

mutual
/-- `StrictJsonVisitor`: `fields.insert` of each name of an object. -/
def strict : Json → Bool
  | .array items => strictItems items
  | .object members => strictMembers [] members
  | _ => true

def strictItems : List Json → Bool
  | [] => true
  | item :: items => strict item && strictItems items

def strictMembers (fields : List String) : List (String × Json) → Bool
  | [] => true
  | (field, value) :: members =>
    !(fields.contains field) && (strict value && strictMembers (field :: fields) members)
end

mutual
theorem strict_iff (v : Json) : strict v = true ↔ v.Distinct := by
  match v with
  | .array items => exact strictItems_iff items
  | .object members =>
    rw [strict, strictMembers_iff [] members]
    exact ⟨fun h => ⟨h.1, h.2.2⟩,
      fun h => ⟨h.1, fun _ hfield => absurd hfield not_mem_nil, h.2⟩⟩
  | .null => exact ⟨fun _ => trivial, fun _ => rfl⟩
  | .bool _ => exact ⟨fun _ => trivial, fun _ => rfl⟩
  | .number _ => exact ⟨fun _ => trivial, fun _ => rfl⟩
  | .string _ => exact ⟨fun _ => trivial, fun _ => rfl⟩

theorem strictItems_iff (items : List Json) :
    strictItems items = true ↔ Json.DistinctItems items := by
  match items with
  | [] => exact ⟨fun _ => trivial, fun _ => rfl⟩
  | item :: items =>
    rw [strictItems, Bool.and_eq_true, strict_iff item, strictItems_iff items, Json.DistinctItems]

theorem strictMembers_iff (fields : List String) (members : List (String × Json)) :
    strictMembers fields members = true ↔ (OrderedMap.keys members).Nodup ∧
      (∀ field ∈ fields, field ∉ OrderedMap.keys members) ∧ Json.DistinctMembers members := by
  match members with
  | [] =>
    exact ⟨fun _ => ⟨nodup_nil, fun _ _ => not_mem_nil, trivial⟩, fun _ => rfl⟩
  | (field, value) :: members =>
    rw [strictMembers, Bool.and_eq_true, Bool.and_eq_true, strict_iff value,
      strictMembers_iff (field :: fields) members, Bool.not_eq_true', contains_eq_mem,
      decide_eq_false_iff_not]
    show _ ↔ (field :: OrderedMap.keys members).Nodup ∧
      (∀ f ∈ fields, f ∉ field :: OrderedMap.keys members) ∧ value.Distinct ∧ _
    rw [nodup_cons, forall_mem_cons]
    constructor
    · intro h
      obtain ⟨hnew, hvalue, hnodup, ⟨hfield, hfields⟩, hmembers⟩ := h
      refine ⟨⟨hfield, hnodup⟩, fun f hf hmem => ?_, hvalue, hmembers⟩
      cases mem_cons.mp hmem with
      | inl heq => exact hnew (heq ▸ hf)
      | inr hmem => exact hfields f hf hmem
    · intro h
      obtain ⟨⟨hfield, hnodup⟩, hfields, hvalue, hmembers⟩ := h
      refine ⟨fun hmem => hfields field hmem mem_cons_self, hvalue, hnodup,
        ⟨hfield, fun f hf hmem => hfields f hf (mem_cons_of_mem _ hmem)⟩, hmembers⟩
end

/-! ## The document -/

mutual
/-- How deep arrays and objects are nested. -/
def depth : Json → Nat
  | .array items => depthItems items + 1
  | .object members => depthMembers members + 1
  | _ => 0

def depthItems : List Json → Nat
  | [] => 0
  | item :: items => max (depth item) (depthItems items)

def depthMembers : List (String × Json) → Nat
  | [] => 0
  | (_, value) :: members => max (depth value) (depthMembers members)
end

/-- The nesting that serde_json gives up at. -/
def recursionLimit : Nat := 128

def parseStrictJson {α : Type} (deserialize : Json → Option α) (bytes : List UInt8)
    (maxBytes : Nat) : Option α :=
  if maxBytes < bytes.length then none
  else do
    let document ← Json.read bytes
    if depth document < recursionLimit ∧ strict document then deserialize document else none

variable {α : Type}

variable {maxBytes : Nat} {deserialize : Json → Option α}

theorem parseStrictJson_source {bytes : List UInt8} {value : α}
    (h : parseStrictJson deserialize bytes maxBytes = some value) :
    ∃ document, Json.read bytes = some document ∧ document.Distinct ∧
      deserialize document = some value := by
  unfold parseStrictJson at h
  split at h
  · cases h
  · obtain ⟨document, hread, h⟩ := Option.bind_eq_some_iff.mp h
    split at h
    · next hstrict => exact ⟨document, hread, (strict_iff document).mp hstrict.2, h⟩
    · cases h

theorem parseStrictJson_pretty {document : Json} (hbound : document.prettyBytes.length ≤ maxBytes)
    (hcounting : document.Counting) (hdepth : depth document < recursionLimit)
    (hdistinct : document.Distinct) :
    parseStrictJson deserialize document.prettyBytes maxBytes = deserialize document := by
  rw [parseStrictJson, if_neg (Nat.not_lt.mpr hbound), Json.read_pretty document hcounting]
  exact if_pos ⟨hdepth, (strict_iff document).mpr hdistinct⟩

/-! ## Records -/

/-- The members of a record: those of an object that knows no others, or the items of an
array in the order of the fields. -/
def fields (names : List String) : Json → Option Members
  | .object members => if Json.Strict names members then some members else none
  | .array items => if items.length = names.length then some (names.zip items) else none
  | _ => none

def flag : Json → Option Bool
  | .bool value => some value
  | _ => none

/-- The value is a record with these members: each of the names once and no other. -/
structure Carries (names : List String) (v : Json) (members : Members) : Prop where
  value : v = .object members ∨ v = .array (members.map Prod.snd)
  names : (OrderedMap.keys members).Perm names

variable {v : Json}

theorem distinct_of_mem {items : List Json} (h : Json.DistinctItems items) (hmem : v ∈ items) :
    v.Distinct := by
  induction items with
  | nil => cases hmem
  | cons item items ih =>
    cases mem_cons.mp hmem with
    | inl heq => exact heq ▸ h.1
    | inr hmem => exact ih h.2 hmem

variable {names : List String} {members : Members}

theorem carries_of_fields (h : fields names v = some members) (hnames : names.Nodup)
    (hall : ∀ name ∈ names, (OrderedMap.get members name).isSome) : Carries names v members := by
  cases v with
  | object written =>
    rw [fields] at h
    split at h
    · next hstrict =>
      cases h
      refine ⟨.inl rfl, (perm_ext_iff_of_nodup hstrict.1 hnames).mpr fun name => ?_⟩
      refine ⟨hstrict.2 name, fun hname => ?_⟩
      obtain ⟨value, hvalue⟩ := Option.isSome_iff_exists.mp (hall name hname)
      exact mem_map.mpr ⟨_, (OrderedMap.get_eq_some_iff hstrict.1).mp hvalue, rfl⟩
    · cases h
  | array items =>
    rw [fields] at h
    split at h
    · next hlength =>
      cases h
      refine ⟨.inr ?_, ?_⟩
      · rw [map_snd_zip (Nat.le_of_eq hlength)]
      · show ((names.zip items).map Prod.fst).Perm names
        rw [map_fst_zip (Nat.le_of_eq hlength.symm)]
    · cases h
  | null => cases h
  | bool _ => cases h
  | number _ => cases h
  | string _ => cases h

variable {key : String}

theorem Carries.distinct (h : Carries names v members) (hnames : names.Nodup) (hv : v.Distinct)
    {value : Json} (hget : OrderedMap.get members key = some value) : value.Distinct := by
  have hnodup : (OrderedMap.keys members).Nodup := h.names.nodup_iff.mpr hnames
  have hmem : (key, value) ∈ members := (OrderedMap.get_eq_some_iff hnodup).mp hget
  cases h.value with
  | inl heq =>
    rw [heq] at hv
    exact (Json.distinctMembers_iff members).mp hv.2 _ hmem
  | inr heq =>
    rw [heq] at hv
    exact distinct_of_mem hv (mem_map.mpr ⟨_, hmem, rfl⟩)

theorem fields_names (h : Json.Names names members) :
    fields names (.object members) = some members := by
  have hstrict : Json.Strict names members := by
    refine ⟨?_, ?_⟩
    · rw [h.keys]
      exact h.distinct
    · rw [h.keys]
      exact fun _ hkey => hkey
  exact if_pos hstrict

/-! ## What a reader has read -/

variable {reader : Json → Option α}

theorem field_eq_some {m : Members} {a : α} (h : Json.field m key reader = some a) :
    ∃ v, OrderedMap.get m key = some v ∧ reader v = some a :=
  Option.bind_eq_some_iff.mp h

theorem text_eq_some {text : String} (h : Json.text v = some text) : v = .string text := by
  cases v with
  | string => exact congrArg Json.string (Option.some.inj h)
  | _ => cases h

theorem flag_eq_some {value : Bool} (h : flag v = some value) : v = .bool value := by
  cases v with
  | bool => exact congrArg Json.bool (Option.some.inj h)
  | _ => cases h

theorem natural_eq_some {limit n : Nat} (h : Json.natural limit v = some n) : v = .ofNat n := by
  cases v with
  | number text =>
    rw [Json.natural] at h
    split at h
    · next hnumber =>
      cases h
      exact congrArg Json.number hnumber.1.symm
    · cases h
  | _ => cases h

theorem nullable_text_eq_some {o : Option String} (h : Json.nullable Json.text v = some o) :
    v = Json.ofOption Json.string o := by
  cases v with
  | null =>
    cases h
    rfl
  | string =>
    cases h
    rfl
  | _ => cases h

theorem list_eq_some {values : List α} (h : Json.list reader v = some values) :
    ∃ items, v = .array items ∧
      List.Forall₂ (fun item value => reader item = some value) items values := by
  cases v with
  | array items =>
    refine ⟨items, rfl, ?_⟩
    replace h : items.mapM reader = some values := h
    induction items generalizing values with
    | nil =>
      cases h
      exact .nil
    | cons item items ih =>
      rw [mapM_cons] at h
      obtain ⟨value, hvalue, h⟩ := Option.bind_eq_some_iff.mp h
      obtain ⟨later, hlater, h⟩ := Option.bind_eq_some_iff.mp h
      cases h
      exact .cons hvalue (ih hlater)
  | _ => cases h

end Orkworksd.Harness
