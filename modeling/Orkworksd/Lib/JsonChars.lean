import Orkworksd.Lib.JsonFields
import Orkworksd.Lib.JsonSize

/- Which characters the text of a JSON value has: those that JSON itself writes, and those
   of the texts, numbers and names in the value (`notMem_print`). Putting the members in
   the order of their names changes neither the characters nor the size. -/
namespace Orkworksd.Lib
open List

namespace Json

variable {d : Char}

/-- The characters of punctuation, literals and escapes. -/
def written : List Char :=
  [Char.ofNat 0x7b, Char.ofNat 0x7d, '[', ']', ',', ':', '"', '\\'] ++ "nultrefasbfu".toList
    ++ "0123456789abcdef".toList

mutual
/-- The character is in no text, number or name of the value. -/
def Free (d : Char) : Json → Prop
  | .number text => d ∉ text.toList
  | .string text => d ∉ text.toList
  | .array items => FreeItems d items
  | .object members => FreeMembers d members
  | _ => True

def FreeItems (d : Char) : List Json → Prop
  | [] => True
  | item :: items => item.Free d ∧ FreeItems d items

def FreeMembers (d : Char) : List (String × Json) → Prop
  | [] => True
  | (key, value) :: members => d ∉ key.toList ∧ value.Free d ∧ FreeMembers d members
end

theorem freeItems_iff {items : List Json} :
    FreeItems d items ↔ ∀ item ∈ items, item.Free d := by
  induction items with
  | nil => simp [FreeItems]
  | cons item items ih => simp only [FreeItems, ih, forall_mem_cons]

theorem freeMembers_iff {members : List (String × Json)} :
    FreeMembers d members ↔ ∀ m ∈ members, d ∉ m.1.toList ∧ m.2.Free d := by
  induction members with
  | nil => simp [FreeMembers]
  | cons m members ih => simp only [FreeMembers, ih, forall_mem_cons, and_assoc]

theorem written_hexDigit : ∀ n < 16, JsonText.hexDigit n ∈ written := by decide

theorem written_short : ∀ p ∈ JsonText.short, p.2 ∈ written := by decide

section Chars

variable {d : Char} (hd : d ∉ written)
include hd

theorem notMem_escape {c : Char} (h : d ≠ c) : d ∉ JsonText.escape c := by
  have hne : ∀ x ∈ written, d ≠ x := fun x hx heq => hd (heq ▸ hx)
  obtain ⟨x, heq, hx⟩ | ⟨hcontrol, heq⟩ | ⟨heq, -, -⟩ := JsonText.escape_cases c
  · rw [heq, mem_cons, mem_singleton, not_or]
    exact ⟨hne '\\' (by decide), hne x (written_short _ hx)⟩
  · rw [heq]
    have hhigh := hne _ (written_hexDigit (c.toNat / 16) (by omega))
    have hlow := hne _ (written_hexDigit (c.toNat % 16) (by omega))
    simp only [mem_cons, not_mem_nil, or_false, not_or]
    exact ⟨hne '\\' (by decide), hne 'u' (by decide), hne '0' (by decide), hne '0' (by decide),
      hhigh, hlow⟩
  · rw [heq, mem_singleton]
    exact h

theorem notMem_quote {chars : List Char} (h : d ∉ chars) : d ∉ JsonText.quote chars := by
  have hquote : d ≠ '"' := fun heq => hd (heq ▸ (by decide))
  rw [JsonText.quote, mem_append, mem_cons, mem_singleton]
  intro hmem
  rcases hmem with (heq | hmem) | heq
  · exact hquote heq
  · obtain ⟨c, hc, hescape⟩ := mem_flatMap.mp hmem
    exact notMem_escape hd (fun heq => h (heq ▸ hc)) hescape
  · exact hquote heq

mutual
theorem notMem_print (v : Json) (h : v.Free d) : d ∉ v.print := by
  have hliteral : ∀ chars : List Char, chars.all (fun x => decide (x ∈ written)) = true →
      d ∉ chars :=
    fun chars hchars hmem => hd (of_decide_eq_true (all_eq_true.mp hchars d hmem))
  cases v with
  | null => exact hliteral _ (by decide)
  | bool value =>
    cases value with
    | true => exact hliteral _ (by decide)
    | false => exact hliteral _ (by decide)
  | number text => exact h
  | string text => exact notMem_quote hd h
  | array items =>
    have hitems := notMem_printItems true items h
    intro hmem
    rcases mem_append.mp hmem with hmem | hclose
    · cases mem_cons.mp hmem with
      | inl heq => exact hd (heq ▸ (by decide))
      | inr hmem => exact hitems hmem
    · exact hliteral [']'] (by decide) hclose
  | object members =>
    have hmembers := notMem_printMembers true members h
    intro hmem
    rcases mem_append.mp hmem with hmem | hclose
    · cases mem_cons.mp hmem with
      | inl heq => exact hd (heq ▸ (by decide))
      | inr hmem => exact hmembers hmem
    · exact hliteral [Char.ofNat 0x7d] (by decide) hclose

theorem notMem_printItems (first : Bool) (items : List Json) (h : FreeItems d items) :
    d ∉ printItems first items := by
  have hcomma : d ∉ (if first then [] else [',']) := by
    cases first with
    | true => exact not_mem_nil
    | false => exact fun hmem => hd (mem_singleton.mp hmem ▸ (by decide))
  cases items with
  | nil => exact not_mem_nil
  | cons item items =>
    have hitem := notMem_print item h.1
    have hitems := notMem_printItems false items h.2
    rw [printItems, mem_append, mem_append, not_or, not_or]
    exact ⟨⟨hcomma, hitem⟩, hitems⟩

theorem notMem_printMembers (first : Bool) (members : List (String × Json))
    (h : FreeMembers d members) : d ∉ printMembers first members := by
  have hcomma : d ∉ (if first then [] else [',']) := by
    cases first with
    | true => exact not_mem_nil
    | false => exact fun hmem => hd (mem_singleton.mp hmem ▸ (by decide))
  cases members with
  | nil => exact not_mem_nil
  | cons m members =>
    have hkey := notMem_quote hd h.1
    have hvalue := notMem_print m.2 h.2.1
    have hmembers := notMem_printMembers false members h.2.2
    have hcolon : d ≠ ':' := fun heq => hd (heq ▸ (by decide))
    rw [printMembers, mem_append, mem_append, mem_append, mem_cons]
    intro hmem
    rcases hmem with ((hmem | hmem) | heq | hmem) | hmem
    · exact hcomma hmem
    · exact hkey hmem
    · exact hcolon heq
    · exact hvalue hmem
    · exact hmembers hmem
end

end Chars

/-! ## Members in order -/

mutual
theorem free_sorted (v : Json) (h : v.Free d) : v.sorted.Free d := by
  cases v with
  | null => exact h
  | bool value => exact h
  | number text => exact h
  | string text => exact h
  | array items => exact freeItems_sorted items h
  | object members =>
    have hmembers := freeMembers_iff.mp (freeMembers_sorted members h)
    exact freeMembers_iff.mpr (fun m hm => hmembers m ((sortMembers_perm _).mem_iff.mp hm))

theorem freeItems_sorted (items : List Json) (h : FreeItems d items) :
    FreeItems d (sortedItems items) := by
  cases items with
  | nil => exact h
  | cons item items => exact ⟨free_sorted item h.1, freeItems_sorted items h.2⟩

theorem freeMembers_sorted (members : List (String × Json)) (h : FreeMembers d members) :
    FreeMembers d (sortedMembers members) := by
  cases members with
  | nil => exact h
  | cons m members => exact ⟨h.1, free_sorted m.2 h.2.1, freeMembers_sorted members h.2.2⟩
end

theorem size_object (members : List (String × Json)) :
    (object members).size = 2 + (members.map (fun m => JsonText.textSize m.1.toList)).sum +
      (members.map (fun m => m.2.size)).sum + 3 * members.length + (members.length - 1) := by
  cases members with
  | nil => rfl
  | cons m members =>
    obtain ⟨key, value⟩ := m
    rw [size, sizeMembers, sizeMembers_false, map_cons, sum_cons, map_cons, sum_cons, length_cons]
    simp only [if_true]
    omega

mutual
theorem size_sorted (v : Json) : v.sorted.size = v.size := by
  cases v with
  | null => rfl
  | bool value => rfl
  | number text => rfl
  | string text => rfl
  | array items =>
    rw [sorted, size_array, size_array, sizes_sortedItems, sortedItems_eq, length_map]
  | object members =>
    have hperm := sortMembers_perm (sortedMembers members)
    obtain ⟨hnames, hsizes, hlength⟩ := sizes_sortedMembers members
    rw [sorted, size_object, size_object, (hperm.map _).sum_nat, (hperm.map _).sum_nat,
      hperm.length_eq, hnames, hsizes, hlength]

theorem sizes_sortedItems (items : List Json) :
    ((sortedItems items).map size).sum = (items.map size).sum := by
  cases items with
  | nil => rfl
  | cons item items =>
    rw [sortedItems, map_cons, sum_cons, map_cons, sum_cons,
      size_sorted item, sizes_sortedItems items]

theorem sizes_sortedMembers (members : List (String × Json)) :
    ((sortedMembers members).map (fun m => JsonText.textSize m.1.toList)).sum =
        (members.map (fun m => JsonText.textSize m.1.toList)).sum ∧
      ((sortedMembers members).map (fun m => m.2.size)).sum =
        (members.map (fun m => m.2.size)).sum ∧
      (sortedMembers members).length = members.length := by
  cases members with
  | nil => exact ⟨rfl, rfl, rfl⟩
  | cons m members =>
    obtain ⟨hnames, hsizes, hlength⟩ := sizes_sortedMembers members
    have hvalue := size_sorted m.2
    simp only [sortedMembers, map_cons, sum_cons, length_cons, hnames, hsizes,
      hlength, hvalue, and_self]
end

/-! ## Changed members -/

variable {m : Members} {key : String} {value : Json}

theorem freeMembers_set (h : FreeMembers d m) (hkey : d ∉ key.toList)
    (hvalue : value.Free d) : FreeMembers d (OrderedMap.set m key value) := by
  induction m with
  | nil => exact ⟨hkey, hvalue, trivial⟩
  | cons member m ih =>
    obtain ⟨name, old⟩ := member
    rw [OrderedMap.set]
    split
    · exact ⟨hkey, hvalue, h.2.2⟩
    · exact ⟨h.1, h.2.1, ih h.2.2⟩

theorem free_get (h : FreeMembers d m) (hget : OrderedMap.get m key = some value) :
    value.Free d := by
  induction m with
  | nil => cases hget
  | cons member m ih =>
    obtain ⟨name, old⟩ := member
    rw [OrderedMap.get] at hget
    split at hget
    · exact Option.some.inj hget ▸ h.2.1
    · exact ih h.2.2 hget

end Json

end Orkworksd.Lib
