import Orkworksd.Lib.OrderedMap

/- JSON values in memory, as `serde_json::Value` holds them, and the merge of a changed
   record into the document it was read from: members the record knows are replaced or
   removed, members it does not know stay, at every depth.

   `merge_text` is what callers rely on: a text member of the new record is that text in
   the merged document, whatever the document had there. -/
namespace Orkworksd.Lib
open List OrderedMap

inductive Json where
  | null
  | bool (value : Bool)
  | number (text : String)
  | string (text : String)
  | array (items : List Json)
  | object (members : List (String × Json))

/-- The members of an object. -/
abbrev Members : Type := OrderedMap String Json

namespace Members

/-- `Map::extend`. -/
def extend (m other : Members) : Members :=
  other.foldr (fun member m => OrderedMap.set m member.1 member.2) m

def text (m : Members) (key : String) : Option String :=
  match OrderedMap.get m key with
  | some (.string text) => some text
  | _ => none

end Members

namespace Json

def asObject : Json → Option Members
  | .object members => some members
  | _ => none

mutual
def same (a b : Json) : Bool :=
  match a with
  | .null => match b with
    | .null => true
    | _ => false
  | .bool x => match b with
    | .bool y => x == y
    | _ => false
  | .number x => match b with
    | .number y => x == y
    | _ => false
  | .string x => match b with
    | .string y => x == y
    | _ => false
  | .array xs => match b with
    | .array ys => sameItems xs ys
    | _ => false
  | .object xs => match b with
    | .object ys => sameMembers xs ys
    | _ => false
termination_by structural a

def sameItems (xs ys : List Json) : Bool :=
  match xs with
  | [] => ys.isEmpty
  | x :: xs => match ys with
    | [] => false
    | y :: ys => same x y && sameItems xs ys
termination_by structural xs

def sameMembers (xs ys : List (String × Json)) : Bool :=
  match xs with
  | [] => ys.isEmpty
  | (k, x) :: xs => match ys with
    | [] => false
    | (j, y) :: ys => k == j && same x y && sameMembers xs ys
termination_by structural xs
end

mutual
def mergeMember (original old new : Json) : Json :=
  match old with
  | .object old =>
    match original, new with
    | .object original, .object new =>
      let merged := mergeMembers original new old
      .object (merged.1.extend merged.2)
    | _, new => new
  | .array old =>
    match original, new with
    | .array original, .array new => if sameItems old new then .array original else .array new
    | _, new => new
  | _ => new
termination_by structural old

/-- Its loop over the known members: the merged members, and those of the new record that
are left. -/
def mergeMembers (original new : Members) (old : List (String × Json)) : Members × Members :=
  match old with
  | [] => (original, new)
  | (key, oldValue) :: old =>
    match OrderedMap.get new key with
    | some newValue =>
      let originalValue := (OrderedMap.get original key).getD .null
      mergeMembers
        (OrderedMap.set (OrderedMap.erase original key) key
          (mergeMember originalValue oldValue newValue))
        (OrderedMap.erase new key) old
    | none => mergeMembers (OrderedMap.erase original key) new old
termination_by structural old
end

end Json

/-! ## Texts of a merged document -/

variable {m other : Members} {k t : String}

theorem Members.get_extend :
    OrderedMap.get (m.extend other) k = (OrderedMap.get other k).or (OrderedMap.get m k) := by
  induction other with
  | nil => rfl
  | cons member other ih =>
    obtain ⟨i, v⟩ := member
    show OrderedMap.get (OrderedMap.set (m.extend other) i v) k = _
    rw [get_set, OrderedMap.get, ih]
    split <;> rfl

theorem Json.mergeMember_string (original old : Json) :
    mergeMember original old (.string t) = .string t := by
  cases old <;> cases original <;> rfl

/-- A text of the new record is still to come, or is merged and not touched again. -/
def Settles (k t : String) (merged rest : Members) (old : List (String × Json)) : Prop :=
  OrderedMap.get rest k = some (.string t) ∨
    (k ∉ OrderedMap.keys old ∧ OrderedMap.get rest k = none ∧
      OrderedMap.get merged k = some (.string t))

theorem settles_merge {merged rest : Members} {old : List (String × Json)}
    (hold : (OrderedMap.keys old).Nodup) (h : Settles k t merged rest old) :
    Settles k t (Json.mergeMembers merged rest old).1 (Json.mergeMembers merged rest old).2 [] := by
  induction old generalizing merged rest with
  | nil => exact h
  | cons member old ih =>
    obtain ⟨key, oldValue⟩ := member
    have hkey : key ∉ OrderedMap.keys old := (nodup_cons.mp hold).1
    have hrest := (nodup_cons.mp hold).2
    rw [Json.mergeMembers]
    cases hnew : OrderedMap.get rest key with
    | some newValue =>
      apply ih hrest
      by_cases hk : key = k
      · subst hk
        rcases h with h | ⟨hno, -⟩
        · -- this is the turn of the text itself
          obtain rfl : newValue = .string t := Option.some.inj (hnew.symm.trans h)
          right
          refine ⟨hkey, ?_, ?_⟩
          · rw [get_erase, if_pos rfl]
          · rw [get_set, if_pos rfl, Json.mergeMember_string]
        · exact absurd (mem_cons_self) hno
      · rcases h with h | ⟨hno, hnone, hmerged⟩
        · left
          rw [get_erase, if_neg hk]
          exact h
        · right
          refine ⟨fun hmem => hno (mem_cons_of_mem key hmem), ?_, ?_⟩
          · rw [get_erase, if_neg hk]
            exact hnone
          · rw [get_set, if_neg hk, get_erase, if_neg hk]
            exact hmerged
    | none =>
      apply ih hrest
      by_cases hk : key = k
      · subst hk
        rcases h with h | ⟨hno, -⟩
        · rw [hnew] at h
          cases h
        · exact absurd (mem_cons_self) hno
      · rcases h with h | ⟨hno, hnone, hmerged⟩
        · exact .inl h
        · right
          refine ⟨fun hmem => hno (mem_cons_of_mem key hmem), hnone, ?_⟩
          rw [get_erase, if_neg hk]
          exact hmerged

theorem merge_text {old new : Members} (hold : (OrderedMap.keys old).Nodup)
    (hnew : OrderedMap.get new k = some (.string t)) :
    ∃ merged, Json.mergeMember (.object m) (.object old) (.object new) = .object merged ∧
      OrderedMap.get merged k = some (.string t) := by
  refine ⟨_, rfl, ?_⟩
  have hsettled := settles_merge hold (.inl hnew : Settles k t m new old)
  rw [Members.get_extend]
  rcases hsettled with h | ⟨-, hnone, hmerged⟩
  · rw [h]
    rfl
  · rw [hnone, hmerged]
    rfl

end Orkworksd.Lib
