import Mathlib.Data.List.Sort
import Orkworksd.Lib.JsonPrint

/- Reading records out of JSON values, the way a derived deserializer does, and the order of
   members.

   A reader takes a value to a field or refuses it; `record` refuses members it does not know
   and members given twice, and `fields` also takes an array of the fields. A reader that is
   `Orderless` reads the same out of a value whose members were sorted, so what it reads back
   from a text does not depend on the order they were written in. -/
namespace Orkworksd.Lib
open List

namespace OrderedMap

variable {α β : Type} [DecidableEq α] {m m' : OrderedMap α β} {k : α} {v : β}

theorem get_eq_some_iff (h : (keys m).Nodup) : get m k = some v ↔ (k, v) ∈ m := by
  induction m with
  | nil => simp [get]
  | cons entry m ih =>
    obtain ⟨j, w⟩ := entry
    obtain ⟨hj, hrest⟩ := nodup_cons.mp h
    rw [get]
    by_cases heq : j = k
    · subst heq
      rw [if_pos rfl]
      constructor
      · intro hsome
        cases hsome
        exact mem_cons_self
      · intro hmem
        rcases mem_cons.mp hmem with hfirst | hlater
        · cases hfirst
          rfl
        · exact absurd (mem_map.mpr ⟨(j, v), hlater, rfl⟩) hj
    · rw [if_neg heq, ih hrest, mem_cons]
      constructor
      · exact .inr
      · intro hor
        rcases hor with hfirst | hlater
        · cases hfirst
          exact absurd rfl heq
        · exact hlater

theorem get_perm (h : m.Perm m') (hnodup : (keys m).Nodup) : get m k = get m' k := by
  have hnodup' : (keys m').Nodup := (h.map Prod.fst).nodup_iff.mp hnodup
  apply Option.ext
  intro v
  rw [get_eq_some_iff hnodup, get_eq_some_iff hnodup', h.mem_iff]

end OrderedMap

namespace Json

variable {m : Members}

variable {key : String}

/-! ## Sorted members -/

def sortMembers (m : Members) : Members := m.insertionSort (fun a b => a.1 ≤ b.1)

mutual
/-- The value with the members of its objects in the order of their names. -/
def sorted : Json → Json
  | .array items => .array (sortedItems items)
  | .object members => .object (sortMembers (sortedMembers members))
  | value => value

def sortedItems : List Json → List Json
  | [] => []
  | item :: items => item.sorted :: sortedItems items

def sortedMembers : List (String × Json) → List (String × Json)
  | [] => []
  | (key, value) :: members => (key, value.sorted) :: sortedMembers members
end

theorem sortedItems_eq (items : List Json) : sortedItems items = items.map sorted := by
  induction items with
  | nil => rfl
  | cons item items ih => rw [sortedItems, map_cons, ih]

theorem keys_sortedMembers (m : Members) :
    OrderedMap.keys (sortedMembers m) = OrderedMap.keys m := by
  induction m with
  | nil => rfl
  | cons member m ih => exact congrArg (member.1 :: ·) ih

theorem get_sortedMembers (m : Members) (key : String) :
    OrderedMap.get (sortedMembers m) key = (OrderedMap.get m key).map sorted := by
  induction m with
  | nil => rfl
  | cons member m ih =>
    obtain ⟨j, v⟩ := member
    rw [sortedMembers, OrderedMap.get, OrderedMap.get]
    split
    · rfl
    · exact ih

theorem sortMembers_perm (m : Members) : (sortMembers m).Perm m := perm_insertionSort _ m

theorem numericMembers_iff (m : Members) : NumericMembers m ↔ ∀ member ∈ m, member.2.Numeric := by
  induction m with
  | nil => simp [NumericMembers]
  | cons member m ih => simp only [NumericMembers, ih, forall_mem_cons]

mutual
theorem sorted_numeric (v : Json) (h : v.Numeric) : v.sorted.Numeric := by
  match v with
  | .null => exact h
  | .bool _ => exact h
  | .number _ => exact h
  | .string _ => exact h
  | .array items => exact sortedItems_numeric items h
  | .object members =>
    have hmembers := (numericMembers_iff _).mp (sortedMembers_numeric members h)
    refine (numericMembers_iff _).mpr fun member hmem => hmembers member ?_
    exact (sortMembers_perm _).mem_iff.mp hmem

theorem sortedItems_numeric (items : List Json) (h : NumericItems items) :
    NumericItems (sortedItems items) := by
  match items with
  | [] => exact h
  | item :: items => exact ⟨sorted_numeric item h.1, sortedItems_numeric items h.2⟩

theorem sortedMembers_numeric (members : List (String × Json)) (h : NumericMembers members) :
    NumericMembers (sortedMembers members) := by
  match members with
  | [] => exact h
  | (_, value) :: members => exact ⟨sorted_numeric value h.1, sortedMembers_numeric members h.2⟩
end

/-! ## Readers -/

def ofNat (n : Nat) : Json := .number (toString n)

def texts (values : List String) : Json := .array (values.map Json.string)

def text : Json → Option String
  | .string text => some text
  | _ => none

/-- An unsigned integer below the limit of its type. -/
def natural (limit : Nat) : Json → Option Nat
  | .number text =>
    let n := Nat.ofDigitChars 10 text.toList 0
    if toString n = text ∧ n < limit then some n else none
  | _ => none

def list {α : Type} (reader : Json → Option α) : Json → Option (List α)
  | .array items => items.mapM reader
  | _ => none

def nullable {α : Type} (reader : Json → Option α) : Json → Option (Option α)
  | .null => some none
  | value => (reader value).map some

/-- No member is given twice, and each is known. -/
def Strict (known : List String) (m : Members) : Prop :=
  (OrderedMap.keys m).Nodup ∧ ∀ key ∈ OrderedMap.keys m, key ∈ known

instance strictDecidable (known : List String) (m : Members) : Decidable (Strict known m) :=
  inferInstanceAs (Decidable (_ ∧ _))

def record {α : Type} (known : List String) (reader : Members → Option α) : Json → Option α
  | .object m => if Strict known m then reader m else none
  | _ => none

/-- A derived structure: its members, or its fields in their order, of which the last
`defaults` may be left out. -/
def fields {α : Type} (defaults : Nat) (names : List String) (reader : Members → Option α) :
    Json → Option α
  | .array items =>
    if items.length ≤ names.length ∧ names.length ≤ items.length + defaults then
      reader (names.zip items)
    else none
  | value => record names reader value

/-- The tag of a variant without contents, alone or over `null`. -/
def variant : Json → Option String
  | .string tag => some tag
  | .object [(tag, .null)] => some tag
  | _ => none

def field {α : Type} (m : Members) (key : String) (reader : Json → Option α) : Option α :=
  (OrderedMap.get m key).bind reader

/-- A member of an optional type: it may be left out. -/
def optional {α : Type} (m : Members) (key : String) (reader : Json → Option α) :
    Option (Option α) :=
  match OrderedMap.get m key with
  | none => some none
  | some value => nullable reader value

/-! ## Readers do not see the order -/

def Orderless {α : Type} (reader : Json → Option α) : Prop := ∀ v, reader v.sorted = reader v

variable {α : Type} {reader : Json → Option α}

theorem text_orderless : Orderless text := by
  intro v
  cases v <;> rfl

theorem natural_orderless (limit : Nat) : Orderless (natural limit) := by
  intro v
  cases v <;> rfl

theorem list_orderless (h : Orderless reader) : Orderless (list reader) := by
  intro v
  cases v with
  | array items =>
    show (sortedItems items).mapM reader = items.mapM reader
    rw [sortedItems_eq]
    induction items with
    | nil => rfl
    | cons item items ih => rw [map_cons, mapM_cons, mapM_cons, h item, ih]
  | _ => rfl

theorem nullable_orderless (h : Orderless reader) : Orderless (nullable reader) := by
  intro v
  cases v with
  | null => rfl
  | _ => exact congrArg (Option.map some) (h _)

theorem get_sorted (h : (OrderedMap.keys m).Nodup) (key : String) :
    OrderedMap.get (sortMembers (sortedMembers m)) key = (OrderedMap.get m key).map sorted := by
  rw [← get_sortedMembers]
  refine (OrderedMap.get_perm (sortMembers_perm (sortedMembers m)).symm ?_).symm
  rw [keys_sortedMembers]
  exact h

/-- The second members are the first ones with sorted values, in any order. -/
def Sorts (m m' : Members) : Prop :=
  ∀ key, OrderedMap.get m' key = (OrderedMap.get m key).map sorted

theorem zip_sortedItems (names : List String) (items : List Json) :
    names.zip (sortedItems items) = sortedMembers (names.zip items) := by
  induction names generalizing items with
  | nil => rfl
  | cons name names ih =>
    cases items with
    | nil => rfl
    | cons item items => exact congrArg ((name, item.sorted) :: ·) (ih items)

section members
variable {known : List String} {read : Members → Option α}
  (h : ∀ m m', Sorts m m' → read m' = read m)
include h

theorem record_orderless : Orderless (record known read) := by
  intro v
  cases v with
  | object m =>
    have hperm := (sortMembers_perm (sortedMembers m)).map Prod.fst
    have hkeys : List.map Prod.fst (sortedMembers m) = OrderedMap.keys m := keys_sortedMembers m
    rw [hkeys] at hperm
    have hstrict : Strict known (sortMembers (sortedMembers m)) ↔ Strict known m := by
      refine and_congr hperm.nodup_iff ?_
      exact forall_congr' fun key => imp_congr hperm.mem_iff Iff.rfl
    show (if Strict known (sortMembers (sortedMembers m)) then _ else none) = _
    rw [record]
    by_cases hm : Strict known m
    · rw [if_pos hm, if_pos (hstrict.mpr hm)]
      exact h m _ (get_sorted hm.1)
    · rw [if_neg hm, if_neg (fun hs => hm (hstrict.mp hs))]
  | _ => rfl

theorem fields_orderless (defaults : Nat) : Orderless (fields defaults known read) := by
  intro v
  cases v with
  | array items =>
    rw [sorted, fields, fields, sortedItems_eq, length_map, ← sortedItems_eq, zip_sortedItems,
      h _ _ (get_sortedMembers (known.zip items))]
  | object m => exact record_orderless h (.object m)
  | _ => rfl

end members

theorem variant_several (h : m.length ≠ 1) : variant (.object m) = none := by
  match m with
  | [] => rfl
  | [_] => exact absurd rfl h
  | (_, value) :: _ :: _ => cases value <;> rfl

theorem length_sorted (m : Members) : (sortMembers (sortedMembers m)).length = m.length := by
  have hkeys := congrArg List.length (keys_sortedMembers m)
  simp only [OrderedMap.keys, length_map] at hkeys
  rw [(sortMembers_perm _).length_eq, hkeys]

theorem variant_orderless : Orderless variant := by
  intro v
  cases v with
  | object m =>
    by_cases h : m.length = 1
    · match m with
      | [(tag, content)] =>
        show variant (.object [(tag, content.sorted)]) = _
        cases content <;> rfl
    · rw [sorted, variant_several h, variant_several (by rwa [length_sorted])]
  | _ => rfl

variable {m' : Members}

theorem field_sorted (h : Sorts m m') (hr : Orderless reader) (key : String) :
    field m' key reader = field m key reader := by
  rw [field, field, h key]
  cases OrderedMap.get m key with
  | none => rfl
  | some v => exact hr v

theorem optional_sorted (h : Sorts m m') (hr : Orderless reader) (key : String) :
    optional m' key reader = optional m key reader := by
  rw [optional, optional, h key]
  cases OrderedMap.get m key with
  | none => rfl
  | some v => exact nullable_orderless hr v

/-! ## What was written is read -/

/-- The members of a record under the names it has. -/
structure Names (names : List String) (m : Members) : Prop where
  keys : OrderedMap.keys m = names
  distinct : names.Nodup

variable {names : List String}

theorem record_names (h : Names names m) (read : Members → Option α) :
    record names read (.object m) = read m := by
  have hstrict : Strict names m := by
    refine ⟨?_, ?_⟩
    · rw [h.keys]
      exact h.distinct
    · rw [h.keys]
      exact fun _ hkey => hkey
  rw [record, if_pos hstrict]

theorem fields_names (h : Names names m) (defaults : Nat) (read : Members → Option α) :
    fields defaults names read (.object m) = read m := record_names h read

theorem get_at (h : Names names m) (i : Nat) {v : Json}
    (hi : m[i]? = some (key, v)) : OrderedMap.get m key = some v := by
  refine (OrderedMap.get_eq_some_iff ?_).mpr (mem_of_getElem? hi)
  rw [h.keys]
  exact h.distinct

theorem field_at (h : Names names m) (i : Nat) {v : Json}
    (hi : m[i]? = some (key, v)) : field m key reader = reader v := by
  rw [field, get_at h i hi, Option.bind_some]

theorem optional_at (h : Names names m) (i : Nat) {v : Json}
    (hi : m[i]? = some (key, v)) : optional m key reader = nullable reader v := by
  rw [optional, get_at h i hi]

variable (n : Nat)

theorem toList_toString : (toString n).toList = Nat.toDigits 10 n := by
  rw [Nat.toString_eq_repr, Nat.toList_repr]

theorem ofNat_digits : (toString n).toList ≠ [] ∧ ∀ c ∈ (toString n).toList, c.isDigit = true := by
  rw [toList_toString]
  exact ⟨Nat.toDigits_ne_nil, fun c hc => Nat.isDigit_of_mem_toDigits (by decide) (by decide) hc⟩

@[simp] theorem ofNat_numeric : (ofNat n).Numeric :=
  ⟨(ofNat_digits n).1, fun c hc => isNumberChar_digit ((ofNat_digits n).2 c hc)⟩

theorem natural_ofNat {limit n : Nat} (h : n < limit) : natural limit (ofNat n) = some n := by
  have hvalue : Nat.ofDigitChars 10 (toString n).toList 0 = n := by
    rw [toList_toString]
    exact Nat.ofDigitChars_ten_toDigits
  show (if toString (Nat.ofDigitChars 10 (toString n).toList 0) = toString n ∧
    Nat.ofDigitChars 10 (toString n).toList 0 < limit then _ else none) = _
  rw [hvalue, if_pos ⟨rfl, h⟩]

theorem list_map {β : Type} {write : β → Json} {read : Json → Option β}
    (h : ∀ b, read (write b) = some b) (bs : List β) :
    list read (.array (bs.map write)) = some bs := by
  show (bs.map write).mapM read = some bs
  induction bs with
  | nil => rfl
  | cons b bs ih => rw [map_cons, mapM_cons, h b, ih]; rfl

variable (values : List String)

@[simp] theorem list_texts : list text (texts values) = some values := by
  have hread : ∀ t, text (Json.string t) = some t := fun _ => rfl
  exact list_map hread values

def ofOption {β : Type} (write : β → Json) : Option β → Json
  | none => .null
  | some b => write b

theorem nullable_ofOption {β : Type} {write : β → Json} {read : Json → Option β}
    (h : ∀ b, read (write b) = some b) (hnull : ∀ b, write b ≠ .null) (o : Option β) :
    nullable read (ofOption write o) = some o := by
  cases o with
  | none => rfl
  | some b =>
    rw [ofOption, nullable, h b]
    · rfl
    · exact fun heq => hnull b heq

theorem items_numeric {β : Type} {write : β → Json} (h : ∀ b, (write b).Numeric) (bs : List β) :
    (Json.array (bs.map write)).Numeric := by
  show NumericItems (bs.map write)
  induction bs with
  | nil => trivial
  | cons b bs ih => exact ⟨h b, ih⟩

@[simp] theorem texts_numeric : (texts values).Numeric := by
  have hnumeric : ∀ t, (Json.string t).Numeric := fun _ => trivial
  exact items_numeric hnumeric values

theorem ofOption_numeric {β : Type} {write : β → Json} (h : ∀ b, (write b).Numeric)
    (o : Option β) : (ofOption write o).Numeric := by
  cases o with
  | none => trivial
  | some b => exact h b

end Json

end Orkworksd.Lib
