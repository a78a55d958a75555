import Orkworksd.Desktop.StrictJson

/- What the desktop's strict JSON reader accepts (`strictJson.ts`).

   What is proved:
     1. `value_sound`: what the scanner goes through is the text of a tree that keeps the
        rules, by the recursion of the scanner.
     2. `value_complete`: it goes through the text of every such tree, by the recursion of the
        tree.
     3. `value_fuel`: three calls for each character are enough.
     4. `parseStrictJson_accepts`: a value is returned exactly for the texts of the grammar. -/
namespace Orkworksd.Desktop.StrictJson
open List

open Lib Lib.JsonGrammar

/-! ## The rules -/

theorem Rules.nil : Rules [] [] [] :=
  ⟨fun _ h => absurd h not_mem_nil, fun _ h => absurd h not_mem_nil,
    fun _ h => absurd h not_mem_nil⟩

variable {s : List (List Item)} {o : List (List (List Item))} {n : List Number}

variable {s' : List (List Item)} {o' : List (List (List Item))} {n' : List Number}

theorem Rules.append (h : Rules n s o) (h' : Rules n' s' o') :
    Rules (n ++ n') (s ++ s') (o ++ o') :=
  ⟨forall_mem_append.mpr ⟨h.canonical, h'.canonical⟩,
    forall_mem_append.mpr ⟨h.paired, h'.paired⟩,
    forall_mem_append.mpr ⟨h.distinct, h'.distinct⟩⟩

theorem Rules.of_append (h : Rules (n ++ n') (s ++ s') (o ++ o')) :
    Rules n s o ∧ Rules n' s' o' := by
  obtain ⟨hn, hn'⟩ := forall_mem_append.mp h.canonical
  obtain ⟨hs, hs'⟩ := forall_mem_append.mp h.paired
  obtain ⟨ho, ho'⟩ := forall_mem_append.mp h.distinct
  exact ⟨⟨hn, hs, ho⟩, ⟨hn', hs', ho'⟩⟩

variable {items : List Item}

theorem Rules.uncons (h : Rules n (items :: s) o) : Paired items ∧ Rules n s o := by
  obtain ⟨hitems, hs⟩ := forall_mem_cons.mp h.paired
  exact ⟨hitems, h.canonical, hs, h.distinct⟩

theorem Rules.number {n : Number} (h : Canonical n) : Rules [n] [] [] :=
  ⟨forall_mem_singleton.mpr h, Rules.nil.paired, Rules.nil.distinct⟩

theorem Rules.string (h : Paired items) : Rules [] [items] [] :=
  ⟨Rules.nil.canonical, forall_mem_singleton.mpr h, Rules.nil.distinct⟩

theorem Rules.object {names : List (List Item)} (h : Rules n s o) (hnames : (names.map units).Nodup) :
    Rules n s (names :: o) :=
  ⟨h.canonical, h.paired, forall_mem_cons.mpr ⟨hnames, h.distinct⟩⟩

/-! ## Soundness -/

section scanner
variable {V : Type} {js : JsonParse V}

variable {rest : List Char}

variable {source : List Char} {key : List Nat}

theorem string_sound (hjs : js.FollowsRfc) (hquote : source.head? = some '"')
    (h : string js source = .ok (key, rest)) :
    ∃ items, Paired items ∧ source = quoted items ++ rest ∧ key = units items := by
  obtain ⟨tail, rfl⟩ : ∃ tail, source = '"' :: tail := List.head?_eq_some_iff.mp hquote
  obtain ⟨rest', hloop, h⟩ := bind_eq_ok.mp h
  obtain ⟨value, hvalue, h⟩ := bind_eq_ok.mp h
  obtain ⟨rfl, rfl⟩ := Prod.mk.inj (Except.ok.inj h)
  obtain ⟨items, hitems, htail⟩ := stringLoop_sound hloop
  have htail : tail = contents items ++ '"' :: rest' := htail
  have hsource : '"' :: tail = quoted items ++ rest' := by
    rw [htail, quoted]
    simp
  refine ⟨items, hitems, hsource, ?_⟩
  have hslice : ('"' :: tail).take (('"' :: tail).length - rest'.length) = quoted items := by
    rw [hsource, length_append, Nat.add_sub_cancel, take_left]
  rw [hslice] at hvalue
  exact hjs.strings items value (orFail_ok.mp hvalue)

theorem string_complete (hjs : js.FollowsRfc) (hitems : Paired items)
    (rest : List Char) : string js (quoted items ++ rest) = .ok (units items, rest) := by
  have hloop : stringLoop (quoted items ++ rest).length (quoted items ++ rest).tail = .ok rest := by
    have htail : (quoted items ++ rest).tail = contents items ++ '"' :: rest := by
      simp [quoted]
    rw [htail]
    refine stringLoop_complete hitems ?_ rest
    simp only [quoted, length_append, length_cons]
    omega
  have hslice : (quoted items ++ rest).take ((quoted items ++ rest).length - rest.length) =
      quoted items := by
    rw [length_append, Nat.add_sub_cancel, take_left]
  obtain ⟨value, hvalue⟩ := Option.isSome_iff_exists.mp
    ((hjs.accepts (quoted items)).mpr ⟨.nil, .string items, .nil, (append_nil _).symm⟩)
  rw [string, hloop]
  show orFail (js.parse _) >>= _ = _
  rw [hslice, hvalue, ← hjs.strings items value hvalue]
  rfl

theorem string_fuel (hquote : source.head? = some '"') : string js source ≠ .error .fuel := by
  obtain ⟨tail, rfl⟩ : ∃ tail, source = '"' :: tail := List.head?_eq_some_iff.mp hquote
  rw [string]
  cases hloop : stringLoop ('"' :: tail).length ('"' :: tail).tail with
  | error stop =>
    intro heq
    have hstop : stop = .fuel := Except.error.inj heq
    exact stringLoop_fuel (Nat.lt_succ_self tail.length) (hstop ▸ hloop)
  | ok rest =>
    show orFail (js.parse _) >>= _ ≠ _
    cases hparse : js.parse (('"' :: tail).take (('"' :: tail).length - rest.length)) with
    | none => simp [orFail, bind, Except.bind]
    | some value => simp [orFail, bind, Except.bind, pure, Except.pure]

mutual
theorem value_sound (hjs : js.FollowsRfc) {fuel depth : Nat} {chars rest : List Char}
    (hdepth : depth ≤ maxDepth) (h : value js fuel depth chars = .ok rest) :
    ∃ node : Node, skipWhitespace chars = node.text ++ rest ∧ depth + node.depth ≤ maxDepth ∧
      Rules node.numbers node.strings node.objects := by
  match fuel with
  | 0 => exact absurd h (by simp [value])
  | fuel + 1 =>
    rw [value] at h
    cases hchars : skipWhitespace chars with
    | nil =>
      rw [hchars] at h
      exact absurd h (by simp)
    | cons c tail =>
      rw [hchars] at h
      dsimp only at h
      split at h
      · next hc => exact hc ▸ object_sound hjs h
      split at h
      · next hc => exact hc ▸ array_sound hjs h
      split at h
      · next hc =>
        obtain ⟨⟨key, rest'⟩, hstring, heq⟩ := bind_eq_ok.mp h
        cases heq
        obtain ⟨items, hitems, hsource, -⟩ := string_sound hjs (by rw [hc]; rfl) hstring
        exact ⟨.string items, hsource, hdepth, .string hitems⟩
      split at h
      · next hc => exact ⟨.word .true, literal_eq_some.mp (orFail_ok.mp h), hdepth, .nil⟩
      split at h
      · next hc => exact ⟨.word .false, literal_eq_some.mp (orFail_ok.mp h), hdepth, .nil⟩
      split at h
      · next hc => exact ⟨.word .null, literal_eq_some.mp (orFail_ok.mp h), hdepth, .nil⟩
      split at h
      · next hc =>
        obtain ⟨n, hn, htext⟩ := number_sound (orFail_ok.mp h)
        exact ⟨.number n, htext, hdepth, .number hn⟩
      · exact absurd h (by simp)
termination_by fuel

theorem object_sound (hjs : js.FollowsRfc) {fuel depth : Nat} {chars rest : List Char}
    (h : object js fuel (depth + 1) chars = .ok rest) :
    ∃ node : Node, brace :: chars = node.text ++ rest ∧ depth + node.depth ≤ maxDepth ∧
      Rules node.numbers node.strings node.objects := by
  match fuel with
  | 0 => exact absurd h (by simp [object])
  | fuel + 1 =>
    rw [object] at h
    split at h
    · exact absurd h (by simp)
    · next hlimit =>
      obtain ⟨blank, hblank⟩ := skipWhitespace_eq chars
      split at h
      · next rest' htake =>
        cases h
        rw [take_eq_some] at htake
        refine ⟨.emptyObject blank, ?_, Nat.le_of_not_lt hlimit, .nil⟩
        rw [hblank, htake]
        simp [Node.text]
      · next htake =>
        obtain ⟨members, htext, hmembers, hrules, hdistinct, -⟩ :=
          objectLoop_sound hjs (Nat.le_of_not_lt hlimit) h blank
        refine ⟨.object members, ?_, ?_, hrules.object hdistinct⟩
        · rw [← hblank] at htext
          exact congrArg (brace :: ·) htext
        · rw [Node.depth]
          omega
termination_by fuel

theorem objectLoop_sound (hjs : js.FollowsRfc) {fuel depth : Nat} {keys : List (List Nat)}
    {chars rest : List Char} (hdepth : depth ≤ maxDepth)
    (h : objectLoop js fuel depth keys chars = .ok rest) (before : Blank) :
    ∃ members : ObjectMembers, before.chars ++ chars = members.text ++ rest ∧
      depth + members.depth ≤ maxDepth ∧
      Rules members.numbers members.strings members.objects ∧
      (members.names.map units).Nodup ∧ ∀ key ∈ keys, key ∉ members.names.map units := by
  match fuel with
  | 0 => exact absurd h (by simp [objectLoop])
  | fuel + 1 =>
    rw [objectLoop] at h
    split at h
    · exact absurd h (by simp)
    next hquote =>
    obtain ⟨⟨key, rest₁⟩, hstring, h⟩ := bind_eq_ok.mp h
    obtain ⟨items, hitems, hsource, rfl⟩ := string_sound hjs (of_not_not hquote) hstring
    dsimp only at h
    split at h
    · exact absurd h (by simp)
    next hnew =>
    obtain ⟨rest₂, hcolon, h⟩ := bind_eq_ok.mp h
    obtain ⟨rest₃, hvalue, h⟩ := bind_eq_ok.mp h
    obtain ⟨node, hnode, hlimit, hrules⟩ := value_sound hjs hdepth hvalue
    rw [orFail_ok, take_eq_some] at hcolon
    -- the text up to the end of the value
    obtain ⟨blank₀, hblank₀⟩ := skipWhitespace_eq chars
    obtain ⟨blank₁, hblank₁⟩ := skipWhitespace_eq rest₁
    obtain ⟨blank₂, hblank₂⟩ := skipWhitespace_eq rest₂
    obtain ⟨blank₃, hblank₃⟩ := skipWhitespace_eq rest₃
    let name : Key := ⟨before.append blank₀, items, blank₁, blank₂⟩
    have htext : before.chars ++ chars =
        name.text ++ node.text ++ blank₃.chars ++ skipWhitespace rest₃ := by
      rw [append_assoc _ blank₃.chars, ← hblank₃, hblank₀, hsource, hblank₁, hcolon, hblank₂, hnode]
      simp [name, Key.text, Blank.append]
    have hkeep := (Rules.string hitems).append hrules
    split at h
    · next rest₄ htake =>
      cases h
      rw [take_eq_some] at htake
      refine ⟨.last name node blank₃, ?_, hlimit, hkeep, nodup_singleton _, ?_⟩
      · rw [htext, htake]
        simp [ObjectMembers.text]
      · intro key hkey hmem
        rw [mem_singleton.mp hmem] at hkey
        exact hnew hkey
    · obtain ⟨rest₄, hcomma, h⟩ := bind_eq_ok.mp h
      rw [orFail_ok, take_eq_some] at hcomma
      obtain ⟨members, hrest, hmembers, hrules', hdistinct, hkeys⟩ :=
        objectLoop_sound hjs hdepth h .nil
      refine ⟨.more name node blank₃ members, ?_, ?_, hkeep.append hrules', ?_, ?_⟩
      · rw [htext, hcomma]
        have hrest : rest₄ = members.text ++ rest := hrest
        rw [hrest]
        simp [ObjectMembers.text]
      · rw [ObjectMembers.depth]
        omega
      · exact nodup_cons.mpr ⟨hkeys _ mem_cons_self, hdistinct⟩
      · intro key hkey hmem
        obtain heq | hmem := mem_cons.mp hmem
        · exact hnew (heq ▸ hkey)
        · exact hkeys key (mem_cons_of_mem _ hkey) hmem
termination_by fuel

theorem array_sound (hjs : js.FollowsRfc) {fuel depth : Nat} {chars rest : List Char}
    (h : array js fuel (depth + 1) chars = .ok rest) :
    ∃ node : Node, '[' :: chars = node.text ++ rest ∧ depth + node.depth ≤ maxDepth ∧
      Rules node.numbers node.strings node.objects := by
  match fuel with
  | 0 => exact absurd h (by simp [array])
  | fuel + 1 =>
    rw [array] at h
    split at h
    · exact absurd h (by simp)
    · next hlimit =>
      obtain ⟨blank, hblank⟩ := skipWhitespace_eq chars
      split at h
      · next rest' htake =>
        cases h
        rw [take_eq_some] at htake
        refine ⟨.emptyArray blank, ?_, Nat.le_of_not_lt hlimit, .nil⟩
        rw [hblank, htake]
        simp [Node.text]
      · next htake =>
        obtain ⟨elements, htext, helements, hrules⟩ :=
          arrayLoop_sound hjs (Nat.le_of_not_lt hlimit) h blank
        refine ⟨.array elements, ?_, ?_, hrules⟩
        · rw [← hblank] at htext
          exact congrArg ('[' :: ·) htext
        · rw [Node.depth]
          omega
termination_by fuel

theorem arrayLoop_sound (hjs : js.FollowsRfc) {fuel depth : Nat} {chars rest : List Char}
    (hdepth : depth ≤ maxDepth) (h : arrayLoop js fuel depth chars = .ok rest) (before : Blank) :
    ∃ elements : Elements, before.chars ++ chars = elements.text ++ rest ∧
      depth + elements.depth ≤ maxDepth ∧
      Rules elements.numbers elements.strings elements.objects := by
  match fuel with
  | 0 => exact absurd h (by simp [arrayLoop])
  | fuel + 1 =>
    rw [arrayLoop] at h
    obtain ⟨rest₁, hvalue, h⟩ := bind_eq_ok.mp h
    obtain ⟨node, hnode, hlimit, hrules⟩ := value_sound hjs hdepth hvalue
    obtain ⟨blank₀, hblank₀⟩ := skipWhitespace_eq chars
    obtain ⟨blank₁, hblank₁⟩ := skipWhitespace_eq rest₁
    have htext : before.chars ++ chars =
        (before.append blank₀).chars ++ node.text ++ blank₁.chars ++ skipWhitespace rest₁ := by
      rw [append_assoc _ blank₁.chars, ← hblank₁, hblank₀, hnode]
      simp [Blank.append]
    split at h
    · next rest₂ htake =>
      cases h
      rw [take_eq_some] at htake
      refine ⟨.last (before.append blank₀) node blank₁, ?_, hlimit, hrules⟩
      rw [htext, htake]
      simp [Elements.text]
    · obtain ⟨rest₂, hcomma, h⟩ := bind_eq_ok.mp h
      rw [orFail_ok, take_eq_some] at hcomma
      obtain ⟨elements, hrest, helements, hrules'⟩ := arrayLoop_sound hjs hdepth h .nil
      refine ⟨.more (before.append blank₀) node blank₁ elements, ?_, ?_, hrules.append hrules'⟩
      · have hrest : rest₂ = elements.text ++ rest := hrest
        rw [htext, hcomma, hrest]
        simp [Elements.text]
      · rw [Elements.depth]
        omega
termination_by fuel
end

/-! ## Completeness -/

/-- What may follow a value. -/
def Follows (rest : List Char) : Prop := ∀ c ∈ rest.head?, endsNumber c = true

theorem follows_nil : Follows [] := fun _ h => absurd h (by simp)

variable {c : Char}

theorem follows_cons (hc : endsNumber c = true) (rest : List Char) : Follows (c :: rest) := by
  intro d hd
  rwa [← Option.some.inj hd]

theorem endsNumber_space (h : Json.isSpace c = true) : endsNumber c = true := by
  simp only [Json.isSpace, Bool.or_eq_true, beq_iff_eq] at h
  obtain ((h | h) | h) | h := h <;> rw [h] <;> decide

theorem follows_blank (blank : Blank) (hrest : Follows rest) : Follows (blank.chars ++ rest) := by
  cases hblank : blank.chars with
  | nil => exact hrest
  | cons c chars =>
    exact follows_cons (endsNumber_space (blank.spaces c (hblank ▸ mem_cons_self))) _

theorem node_head (node : Node) :
    ∃ c tail, node.text = c :: tail ∧ Json.isSpace c = false ∧ c ≠ ']' := by
  cases node with
  | word word => cases word <;> exact ⟨_, _, rfl, by decide, by decide⟩
  | number number =>
    obtain ⟨c, digits, hwhole⟩ := exists_cons_of_ne_nil number.whole.nonempty
    have hc := number.whole.digits c (hwhole ▸ mem_cons_self)
    cases hminus : number.minus with
    | true =>
      have htext : (Node.number number).text = '-' :: (Node.number number).text.tail := by
        simp [Node.text, Number.text, hminus]
      exact ⟨'-', _, htext, by decide, by decide⟩
    | false =>
      have htext : (Node.number number).text = c :: (Node.number number).text.tail := by
        simp [Node.text, Number.text, hminus, hwhole]
      refine ⟨c, _, htext, ?_, ?_⟩
      · refine Bool.eq_false_of_not_eq_true (fun hspace => ?_)
        exact not_isDigit_of_endsNumber (endsNumber_space hspace) hc
      · intro heq
        rw [heq] at hc
        exact absurd hc (by decide)
  | string items => exact ⟨_, _, rfl, by decide, by decide⟩
  | emptyArray blank => exact ⟨_, _, rfl, by decide, by decide⟩
  | array elements => exact ⟨_, _, rfl, by decide, by decide⟩
  | emptyObject blank => exact ⟨_, _, rfl, by decide, by decide⟩
  | object members => exact ⟨_, _, rfl, by decide, by decide⟩

variable (before : Blank)

theorem skipWhitespace_node (node : Node) (tail : List Char) :
    skipWhitespace (before.chars ++ (node.text ++ tail)) = node.text ++ tail := by
  obtain ⟨c, chars, hnode, hc, -⟩ := node_head node
  rw [skipWhitespace_blank, hnode, cons_append, skipWhitespace_cons hc]

theorem skipWhitespace_token (hc : Json.isSpace c = false) (tail : List Char) :
    skipWhitespace (before.chars ++ c :: tail) = c :: tail := by
  rw [skipWhitespace_blank, skipWhitespace_cons hc]

theorem take_self (c : Char) (tail : List Char) : take c (c :: tail) = some tail :=
  take_eq_some.mpr rfl

theorem take_other {d : Char} (h : d ≠ c) (tail : List Char) : take c (d :: tail) = none :=
  if_neg h

variable {fuel depth : Nat} {chars : List Char}

theorem value_number {n : Number} (hn : Canonical n) (hrest : Follows rest)
    (hchars : skipWhitespace chars = n.text ++ rest) :
    value js (fuel + 1) depth chars = .ok rest := by
  have hnumber := number_complete hn hrest
  obtain ⟨c, digits, hwhole⟩ := exists_cons_of_ne_nil n.whole.nonempty
  have hc := n.whole.digits c (hwhole ▸ mem_cons_self)
  have htext : n.text = c :: digits := by
    obtain ⟨hminus, hfraction, hexponent, -⟩ := hn
    simp [Number.text, hminus, hfraction, hexponent, hwhole]
  have hne {d : Char} (hd : ¬d.isDigit = true) : c ≠ d := fun heq => hd (heq ▸ hc)
  rw [htext, cons_append] at hchars hnumber
  rw [value, hchars]
  dsimp only
  rw [if_neg (hne (by decide)), if_neg (hne (by decide)), if_neg (hne (by decide)),
    if_neg (hne (by decide)), if_neg (hne (by decide)), if_neg (hne (by decide)),
    if_pos (show '0' ≤ c ∧ c ≤ '9' from (isDigit_iff c).mp hc), hnumber]
  rfl

theorem closeBracket_visible : Json.isSpace ']' = false := rfl

theorem comma_visible : Json.isSpace ',' = false := rfl

theorem colon_visible : Json.isSpace ':' = false := rfl

theorem closeBrace_visible : Json.isSpace closeBrace = false := rfl

theorem comma_ne_bracket : ',' ≠ ']' := by decide

theorem comma_ne_brace : ',' ≠ closeBrace := by decide

theorem skipWhitespace_idem (rest : List Char) :
    skipWhitespace (skipWhitespace rest) = skipWhitespace rest := by
  obtain ⟨blank, hblank⟩ := skipWhitespace_eq rest
  calc skipWhitespace (skipWhitespace rest)
      = skipWhitespace (blank.chars ++ skipWhitespace rest) := (skipWhitespace_blank blank _).symm
    _ = skipWhitespace rest := by rw [← hblank]

variable {α : Type}

variable {β : Type} (a : α)

theorem ok_bind (f : α → Except Stop β) : (Except.ok a >>= f) = f a := rfl

theorem orFail_some : orFail (some a) = .ok a := rfl

theorem take_elements (elements : Elements) (rest : List Char) :
    take ']' (skipWhitespace (elements.text ++ rest)) = none := by
  obtain ⟨before, item, tail, htext⟩ : ∃ (before : Blank) (item : Node) (tail : List Char),
      elements.text ++ rest = before.chars ++ (item.text ++ tail) := by
    cases elements with
    | last before item after => exact ⟨before, item, _, by simp [Elements.text]; rfl⟩
    | more before item after elements => exact ⟨before, item, _, by simp [Elements.text]; rfl⟩
  obtain ⟨c, chars, hnode, -, hc⟩ := node_head item
  rw [htext, skipWhitespace_node, hnode, cons_append, take_other hc]

theorem take_members (members : ObjectMembers) (rest : List Char) :
    take closeBrace (skipWhitespace (members.text ++ rest)) = none := by
  obtain ⟨key, tail, htext⟩ : ∃ (key : Key) (tail : List Char),
      members.text ++ rest = key.before.chars ++ ((Node.string key.items).text ++ tail) := by
    cases members with
    | last key value after => exact ⟨key, _, by simp [ObjectMembers.text, Key.text, Node.text]; rfl⟩
    | more key value after members =>
      exact ⟨key, _, by simp [ObjectMembers.text, Key.text, Node.text]; rfl⟩
  rw [htext, skipWhitespace_node]
  exact take_other (by decide) _

variable {text : List Char}

theorem objectLoop_member (hjs : js.FollowsRfc) {key : Key} {keys : List (List Nat)}
    {tail : List Char} (hpaired : Paired key.items) (hnew : units key.items ∉ keys)
    (hchars : skipWhitespace chars =
      quoted key.items ++ (key.after.chars ++ ':' :: (key.next.chars ++ text)))
    (hvalue : value js fuel depth (key.next.chars ++ text) = .ok tail) :
    (∀ rest, skipWhitespace tail = closeBrace :: rest →
      objectLoop js (fuel + 1) depth keys chars = .ok rest) ∧
    ∀ rest, skipWhitespace tail = ',' :: rest →
      objectLoop js (fuel + 1) depth keys chars =
        objectLoop js fuel depth (units key.items :: keys) rest := by
  have hhead : ¬(skipWhitespace chars).head? ≠ some '"' := by
    rw [hchars]
    exact not_not.mpr rfl
  have hstring := string_complete hjs hpaired (key.after.chars ++ ':' :: (key.next.chars ++ text))
  rw [← hchars] at hstring
  constructor
  · intro rest htail
    simp only [objectLoop, if_neg hhead, hstring, ok_bind, if_neg hnew,
      skipWhitespace_token key.after colon_visible, take_self, orFail_some, hvalue, htail]
  · intro rest htail
    simp only [objectLoop, if_neg hhead, hstring, ok_bind, if_neg hnew,
      skipWhitespace_token key.after colon_visible, take_self, orFail_some, hvalue, htail,
      take_other comma_ne_brace]

mutual
theorem value_complete (hjs : js.FollowsRfc) (node : Node) {fuel depth : Nat}
    {chars rest : List Char} (hfuel : 3 * node.text.length + 1 ≤ fuel)
    (hdepth : depth + node.depth ≤ maxDepth)
    (hrules : Rules node.numbers node.strings node.objects) (hrest : Follows rest)
    (hchars : skipWhitespace chars = node.text ++ rest) : value js fuel depth chars = .ok rest := by
  obtain ⟨fuel, rfl⟩ : ∃ n, fuel = n + 1 := ⟨fuel - 1, by omega⟩
  match node with
  | .number n => exact value_number (hrules.canonical n mem_cons_self) hrest hchars
  | .word word =>
    rw [value, hchars]
    have hliteral := literal_eq_some.mpr (rfl : word.text ++ rest = _)
    cases word with
    | true => exact orFail_ok.mpr hliteral
    | false => exact orFail_ok.mpr hliteral
    | null => exact orFail_ok.mpr hliteral
  | .string items =>
    have hstring := string_complete hjs (hrules.paired items mem_cons_self) rest
    rw [value, hchars]
    show (string js (quoted items ++ rest) >>= fun found => pure found.2) = _
    rw [hstring]
    rfl
  | .emptyArray blank =>
    rw [Node.depth] at hdepth
    have htext : (Node.emptyArray blank).text ++ rest =
        '[' :: (blank.chars ++ ']' :: rest) := by
      simp [Node.text]
    rw [htext] at hchars
    obtain ⟨fuel, rfl⟩ : ∃ n, fuel = n + 1 := ⟨fuel - 1, by simp [Node.text] at hfuel; omega⟩
    rw [value, hchars]
    show array js (fuel + 1) (depth + 1) (blank.chars ++ ']' :: rest) = _
    rw [array, if_neg (Nat.not_lt.mpr hdepth), skipWhitespace_token blank (by decide), take_self]
  | .emptyObject blank =>
    rw [Node.depth] at hdepth
    have htext : (Node.emptyObject blank).text ++ rest =
        brace :: (blank.chars ++ closeBrace :: rest) := by
      simp [Node.text]
    rw [htext] at hchars
    obtain ⟨fuel, rfl⟩ : ∃ n, fuel = n + 1 := ⟨fuel - 1, by simp [Node.text] at hfuel; omega⟩
    rw [value, hchars]
    show object js (fuel + 1) (depth + 1) (blank.chars ++ closeBrace :: rest) = _
    rw [object, if_neg (Nat.not_lt.mpr hdepth), skipWhitespace_token blank (by decide), take_self]
  | .array elements =>
    rw [Node.depth] at hdepth
    rw [Node.text, length_cons] at hfuel
    obtain ⟨fuel, rfl⟩ : ∃ n, fuel = n + 1 := ⟨fuel - 1, by omega⟩
    rw [value, hchars]
    show array js (fuel + 1) (depth + 1) (elements.text ++ rest) = _
    rw [array, if_neg (by omega), take_elements]
    exact arrayLoop_complete hjs elements (by omega) (by omega) hrules (skipWhitespace_idem _)
  | .object members =>
    rw [Node.depth] at hdepth
    rw [Node.text, length_cons] at hfuel
    obtain ⟨fuel, rfl⟩ : ∃ n, fuel = n + 1 := ⟨fuel - 1, by omega⟩
    obtain ⟨hdistinct, hobjects⟩ := forall_mem_cons.mp hrules.distinct
    rw [value, hchars]
    show object js (fuel + 1) (depth + 1) (members.text ++ rest) = _
    rw [object, if_neg (by omega), take_members]
    exact objectLoop_complete hjs members (by omega) (by omega)
      ⟨hrules.canonical, hrules.paired, hobjects⟩ hdistinct
      (fun _ hkey => absurd hkey not_mem_nil) (skipWhitespace_idem _)

theorem arrayLoop_complete (hjs : js.FollowsRfc) (elements : Elements) {fuel depth : Nat}
    {chars rest : List Char} (hfuel : 3 * elements.text.length + 2 ≤ fuel)
    (hdepth : depth + elements.depth ≤ maxDepth)
    (hrules : Rules elements.numbers elements.strings elements.objects)
    (hchars : skipWhitespace chars = skipWhitespace (elements.text ++ rest)) :
    arrayLoop js fuel depth chars = .ok rest := by
  obtain ⟨fuel, rfl⟩ : ∃ n, fuel = n + 1 := ⟨fuel - 1, by omega⟩
  match elements with
  | .last before item after =>
    have htext : (Elements.last before item after).text ++ rest =
        before.chars ++ (item.text ++ (after.chars ++ ']' :: rest)) := by
      simp [Elements.text]
    have hlength : item.text.length < (Elements.last before item after).text.length := by
      simp only [Elements.text, length_append, length_singleton]
      omega
    rw [htext, skipWhitespace_node] at hchars
    have hvalue : value js fuel depth chars = .ok (after.chars ++ ']' :: rest) :=
      value_complete hjs item (by omega) hdepth hrules
        (follows_blank after (follows_cons (by decide) rest)) hchars
    simp only [arrayLoop, hvalue, ok_bind, skipWhitespace_token after closeBracket_visible,
      take_self]
  | .more before item after elements =>
    have htext : (Elements.more before item after elements).text ++ rest =
        before.chars ++ (item.text ++ (after.chars ++ ',' :: (elements.text ++ rest))) := by
      simp [Elements.text]
    have hlength : item.text.length + elements.text.length + 1 ≤
        (Elements.more before item after elements).text.length := by
      simp only [Elements.text, length_append, length_cons]
      omega
    rw [Elements.depth] at hdepth
    obtain ⟨hitem, helements⟩ := Rules.of_append hrules
    rw [htext, skipWhitespace_node] at hchars
    have hvalue : value js fuel depth chars =
        .ok (after.chars ++ ',' :: (elements.text ++ rest)) :=
      value_complete hjs item (by omega) (by omega) hitem
        (follows_blank after (follows_cons (by decide) _)) hchars
    have hloop : arrayLoop js fuel depth (elements.text ++ rest) = .ok rest :=
      arrayLoop_complete hjs elements (by omega) (by omega) helements rfl
    simp only [arrayLoop, hvalue, ok_bind, skipWhitespace_token after comma_visible,
      take_other comma_ne_bracket, take_self, orFail_some, hloop]

theorem objectLoop_complete (hjs : js.FollowsRfc) (members : ObjectMembers) {fuel depth : Nat}
    {keys : List (List Nat)} {chars rest : List Char}
    (hfuel : 3 * members.text.length + 2 ≤ fuel)
    (hdepth : depth + members.depth ≤ maxDepth)
    (hrules : Rules members.numbers members.strings members.objects)
    (hdistinct : (members.names.map units).Nodup)
    (hkeys : ∀ key ∈ keys, key ∉ members.names.map units)
    (hchars : skipWhitespace chars = skipWhitespace (members.text ++ rest)) :
    objectLoop js fuel depth keys chars = .ok rest := by
  obtain ⟨fuel, rfl⟩ : ∃ n, fuel = n + 1 := ⟨fuel - 1, by omega⟩
  match members with
  | .last key node after =>
    have htext : (ObjectMembers.last key node after).text ++ rest =
        key.before.chars ++ ((Node.string key.items).text ++ (key.after.chars ++
          ':' :: (key.next.chars ++ (node.text ++ (after.chars ++ closeBrace :: rest))))) := by
      simp [ObjectMembers.text, Key.text, Node.text]
    have hlength : node.text.length < (ObjectMembers.last key node after).text.length := by
      simp only [ObjectMembers.text, length_append, length_singleton]
      omega
    obtain ⟨hpaired, hnode⟩ := hrules.uncons
    rw [htext, skipWhitespace_node] at hchars
    have hvalue : value js fuel depth
        (key.next.chars ++ (node.text ++ (after.chars ++ closeBrace :: rest))) =
          .ok (after.chars ++ closeBrace :: rest) :=
      value_complete hjs node (by omega) hdepth hnode
        (follows_blank after (follows_cons (by decide) rest)) (skipWhitespace_node key.next node _)
    exact (objectLoop_member hjs hpaired (fun hmem => hkeys _ hmem mem_cons_self) hchars
      hvalue).1 rest (skipWhitespace_token after closeBrace_visible rest)
  | .more key node after members =>
    have htext : (ObjectMembers.more key node after members).text ++ rest =
        key.before.chars ++ ((Node.string key.items).text ++ (key.after.chars ++
          ':' :: (key.next.chars ++ (node.text ++ (after.chars ++
            ',' :: (members.text ++ rest)))))) := by
      simp [ObjectMembers.text, Key.text, Node.text]
    have hlength : node.text.length + members.text.length + 1 ≤
        (ObjectMembers.more key node after members).text.length := by
      simp only [ObjectMembers.text, length_append, length_cons]
      omega
    rw [ObjectMembers.depth] at hdepth
    obtain ⟨hkey, hmembers⟩ := Rules.of_append hrules
    obtain ⟨hpaired, hnode⟩ := hkey.uncons
    obtain ⟨hfirst, hdistinct⟩ := nodup_cons.mp hdistinct
    rw [htext, skipWhitespace_node] at hchars
    have hvalue : value js fuel depth
        (key.next.chars ++ (node.text ++ (after.chars ++ ',' :: (members.text ++ rest)))) =
          .ok (after.chars ++ ',' :: (members.text ++ rest)) :=
      value_complete hjs node (by omega) (by omega) hnode
        (follows_blank after (follows_cons (by decide) _)) (skipWhitespace_node key.next node _)
    rw [(objectLoop_member hjs hpaired (fun hmem => hkeys _ hmem mem_cons_self) hchars
      hvalue).2 _ (skipWhitespace_token after comma_visible _)]
    refine objectLoop_complete hjs members (by omega) (by omega) hmembers hdistinct ?_ rfl
    intro name hname
    obtain rfl | hname := mem_cons.mp hname
    · exact hfirst
    · exact fun hmem => hkeys name hname (mem_cons_of_mem _ hmem)
end

/-! ## The fuel -/

theorem bind_fuel {x : Except Stop α} {f : α → Except Stop β} (hx : x ≠ .error .fuel)
    (hf : ∀ a, x = .ok a → f a ≠ .error .fuel) : (x >>= f) ≠ .error .fuel := by
  cases x with
  | error stop => exact fun heq => hx (congrArg _ (Except.error.inj heq))
  | ok a => exact hf a rfl

theorem value_length (hjs : js.FollowsRfc) (hdepth : depth ≤ maxDepth)
    (h : value js fuel depth chars = .ok rest) : rest.length < chars.length := by
  obtain ⟨node, hnode, -, -⟩ := value_sound hjs hdepth h
  obtain ⟨c, tail, htext, -, -⟩ := node_head node
  have hlength := congrArg List.length hnode
  rw [htext, length_append, length_cons] at hlength
  have := length_skipWhitespace chars
  omega

theorem take_length (h : take c (skipWhitespace chars) = some rest) :
    rest.length < chars.length := by
  have hlength := congrArg List.length (take_eq_some.mp h)
  rw [length_cons] at hlength
  have := length_skipWhitespace chars
  omega

theorem string_length (hjs : js.FollowsRfc) (hquote : (skipWhitespace chars).head? = some '"')
    (h : string js (skipWhitespace chars) = .ok (key, rest)) : rest.length < chars.length := by
  obtain ⟨items, -, hsource, -⟩ := string_sound hjs hquote h
  have hlength := congrArg List.length hsource
  rw [quoted, length_append, length_append, length_cons] at hlength
  have := length_skipWhitespace chars
  omega

mutual
theorem value_fuel (hjs : js.FollowsRfc) {fuel depth : Nat} {chars : List Char}
    (hfuel : 3 * chars.length + 1 ≤ fuel) :
    value js fuel depth chars ≠ .error .fuel := by
  match fuel with
  | 0 => omega
  | fuel + 1 =>
    have hlength := length_skipWhitespace chars
    rw [value]
    cases hchars : skipWhitespace chars with
    | nil => simp
    | cons c tail =>
      rw [hchars, length_cons] at hlength
      dsimp only
      split
      · exact object_fuel hjs (by omega)
      split
      · exact array_fuel hjs (by omega)
      split
      · next hc =>
        refine bind_fuel (string_fuel (by rw [hc]; rfl)) (fun _ _ => ?_)
        simp [pure, Except.pure]
      split
      · exact orFail_ne_fuel _
      split
      · exact orFail_ne_fuel _
      split
      · exact orFail_ne_fuel _
      split
      · exact orFail_ne_fuel _
      · simp
termination_by fuel

theorem object_fuel (hjs : js.FollowsRfc) {fuel depth : Nat} {chars : List Char}
    (hfuel : 3 * chars.length + 3 ≤ fuel) : object js fuel depth chars ≠ .error .fuel := by
  match fuel with
  | 0 => omega
  | fuel + 1 =>
    rw [object]
    split
    · simp
    · next hlimit =>
      have hlength := length_skipWhitespace chars
      split
      · simp
      · exact objectLoop_fuel hjs (Nat.le_of_not_lt hlimit) (by omega)
termination_by fuel

theorem objectLoop_fuel (hjs : js.FollowsRfc) {fuel depth : Nat} {keys : List (List Nat)}
    {chars : List Char} (hdepth : depth ≤ maxDepth) (hfuel : 3 * chars.length + 2 ≤ fuel) :
    objectLoop js fuel depth keys chars ≠ .error .fuel := by
  match fuel with
  | 0 => omega
  | fuel + 1 =>
    rw [objectLoop]
    split
    · simp
    next hquote =>
    refine bind_fuel (string_fuel (of_not_not hquote)) (fun found hstring => ?_)
    have hstring := string_length hjs (of_not_not hquote) hstring
    dsimp only
    split
    · simp
    refine bind_fuel (orFail_ne_fuel _) (fun rest₁ hcolon => ?_)
    have hcolon := take_length (orFail_ok.mp hcolon)
    refine bind_fuel (value_fuel hjs (by omega)) (fun rest₂ hvalue => ?_)
    have hvalue := value_length hjs hdepth hvalue
    split
    · simp
    refine bind_fuel (orFail_ne_fuel _) (fun rest₃ hcomma => ?_)
    have hcomma := take_length (orFail_ok.mp hcomma)
    exact objectLoop_fuel hjs hdepth (by omega)
termination_by fuel

theorem array_fuel (hjs : js.FollowsRfc) {fuel depth : Nat} {chars : List Char}
    (hfuel : 3 * chars.length + 3 ≤ fuel) : array js fuel depth chars ≠ .error .fuel := by
  match fuel with
  | 0 => omega
  | fuel + 1 =>
    rw [array]
    split
    · simp
    · next hlimit =>
      have hlength := length_skipWhitespace chars
      split
      · simp
      · exact arrayLoop_fuel hjs (Nat.le_of_not_lt hlimit) (by omega)
termination_by fuel

theorem arrayLoop_fuel (hjs : js.FollowsRfc) {fuel depth : Nat} {chars : List Char}
    (hdepth : depth ≤ maxDepth) (hfuel : 3 * chars.length + 2 ≤ fuel) :
    arrayLoop js fuel depth chars ≠ .error .fuel := by
  match fuel with
  | 0 => omega
  | fuel + 1 =>
    rw [arrayLoop]
    refine bind_fuel (value_fuel hjs (by omega)) (fun rest₁ hvalue => ?_)
    have hvalue := value_length hjs hdepth hvalue
    split
    · simp
    refine bind_fuel (orFail_ne_fuel _) (fun rest₂ hcomma => ?_)
    have hcomma := take_length (orFail_ok.mp hcomma)
    exact arrayLoop_fuel hjs hdepth (by omega)
termination_by fuel
end

/-! ## The reader -/

theorem scan_ok (hjs : js.FollowsRfc) (source : List Char) :
    scan js source = .ok () ↔ StrictText source := by
  rw [scan]
  constructor
  · intro h
    obtain ⟨rest, hvalue, h⟩ := bind_eq_ok.mp h
    split at h
    · next hend =>
      obtain ⟨node, hnode, hdepth, hrules⟩ := value_sound hjs (Nat.zero_le _) hvalue
      obtain ⟨before, hbefore⟩ := skipWhitespace_eq source
      obtain ⟨after, hafter⟩ := skipWhitespace_eq rest
      rw [hend, append_nil] at hafter
      rw [skipWhitespace_idem] at hnode
      refine ⟨before, node, after, ?_, by omega, hrules⟩
      rw [hbefore, hnode, hafter, append_assoc]
    · exact absurd h (by simp)
  · intro h
    obtain ⟨before, node, after, hsource, hdepth, hrules⟩ := h
    have hskip : skipWhitespace source = node.text ++ after.chars := by
      rw [hsource, append_assoc, skipWhitespace_node]
    have hfuel : 3 * node.text.length + 1 ≤ 3 * source.length + 1 := by
      have hlength := congrArg List.length hsource
      simp only [length_append] at hlength
      omega
    have hfollows : Follows after.chars :=
      append_nil after.chars ▸ follows_blank after follows_nil
    have hvalue : value js (3 * source.length + 1) 0 (skipWhitespace source) = .ok after.chars :=
      value_complete hjs node hfuel (by omega) hrules hfollows (by rw [skipWhitespace_idem, hskip])
    have hend : skipWhitespace after.chars = [] := by
      have hblank := skipWhitespace_blank after []
      rw [append_nil] at hblank
      exact hblank
    rw [hvalue, ok_bind, if_pos hend]

theorem scan_fuel (hjs : js.FollowsRfc) (source : List Char) :
    scan js source ≠ .error .fuel := by
  rw [scan]
  have hlength := length_skipWhitespace source
  refine bind_fuel (value_fuel hjs (by omega)) (fun rest _ => ?_)
  split <;> simp

theorem decodeText_eq_some {bytes : List UInt8} :
    decodeText bytes = some text ↔ JsonText.encode text = bytes := by
  have hdecode (text : List Char) :
      (JsonText.encode text).toByteArray.utf8Decode? = some text.toArray :=
    List.utf8Decode?_utf8Encode
  constructor
  · intro h
    obtain ⟨chars, hchars, rfl⟩ := Option.map_eq_some_iff.mp h
    obtain ⟨valid, hvalid⟩ := ByteArray.isSome_utf8Decode?_iff.mp
      (Option.isSome_iff_exists.mpr ⟨chars, hchars⟩)
    have hbytes : bytes = JsonText.encode valid := toByteArray_inj.mp hvalid
    rw [hbytes, hdecode] at hchars
    rw [← Option.some.inj hchars, hbytes]
  · intro h
    rw [decodeText, ← h, hdecode]
    rfl

theorem StrictText.isText (h : StrictText chars) : IsText chars := by
  obtain ⟨before, node, after, hchars, -⟩ := h
  exact ⟨before, node, after, hchars⟩

/-- The reader terminates, returns a value for exactly the bytes within the limit, without a
byte-order mark, that are the UTF-8 of a strict text, and leaves nothing for `JSON.parse` to
reject. -/
theorem parseStrictJson_accepts (hjs : js.FollowsRfc) (bytes : List UInt8) (maxBytes : Nat) :
    parseStrictJson js bytes maxBytes ≠ .error .fuel ∧
      ((∃ value, parseStrictJson js bytes maxBytes = .ok value) ↔
        bytes.length ≤ maxBytes ∧ ¬byteOrderMark <+: bytes ∧
          ∃ text, JsonText.encode text = bytes ∧ StrictText text) ∧
      ∀ source, scan js source = .ok () → (js.parse source).isSome = true := by
  have hparse (source : List Char) (h : scan js source = .ok ()) :
      (js.parse source).isSome = true :=
    (hjs.accepts source).mpr ((scan_ok hjs source).mp h).isText
  refine ⟨?_, ?_, hparse⟩
  · rw [parseStrictJson]
    split
    · simp
    split
    · simp
    refine bind_fuel (orFail_ne_fuel _) (fun text _ => ?_)
    exact bind_fuel (scan_fuel hjs text) (fun _ _ => orFail_ne_fuel _)
  · rw [parseStrictJson]
    constructor
    · intro h
      obtain ⟨value, h⟩ := h
      split at h
      · exact absurd h (by simp)
      next hlimit =>
      split at h
      · exact absurd h (by simp)
      next hmark =>
      obtain ⟨text, htext, h⟩ := bind_eq_ok.mp h
      obtain ⟨hscan, -⟩ := seq_eq_ok.mp h
      exact ⟨Nat.le_of_not_lt hlimit, fun hbegins => hmark (List.isPrefixOf_iff_prefix.mpr hbegins),
        text, decodeText_eq_some.mp (orFail_ok.mp htext), (scan_ok hjs text).mp hscan⟩
    · intro h
      obtain ⟨hlimit, hmark, text, hencode, hstrict⟩ := h
      have hscan := (scan_ok hjs text).mpr hstrict
      obtain ⟨value, hvalue⟩ := Option.isSome_iff_exists.mp (hparse text hscan)
      refine ⟨value, ?_⟩
      rw [if_neg (Nat.not_lt.mpr hlimit),
        if_neg (fun hbegins => hmark (List.isPrefixOf_iff_prefix.mp hbegins)),
        decodeText_eq_some.mpr hencode, orFail_some, ok_bind, hscan, ok_bind, hvalue, orFail_some]

end scanner

/-! ## A parser of the grammar -/

/-- The code units of a string's text, behind its opening quote. -/
def readUnits : Nat → List Char → List Nat
  | 0, _ => []
  | _ + 1, [] => []
  | fuel + 1, c :: rest =>
    if c = '"' then []
    else if c ≠ '\\' then utf16 c ++ readUnits fuel rest
    else if rest.head? = some 'u' then
      ((readHexCodeUnit rest.tail).map Prod.fst).toList ++ readUnits fuel (rest.drop 5)
    else (rest.head?.bind Json.unescape).toList.flatMap utf16 ++ readUnits fuel rest.tail

theorem readUnits_contents {fuel : Nat} (items : List Item)
    (hfuel : (contents items).length < fuel) :
    readUnits fuel (contents items ++ ['"']) = units items := by
  induction items generalizing fuel with
  | nil =>
    obtain ⟨fuel, rfl⟩ : ∃ n, fuel = n + 1 := ⟨fuel - 1, by omega⟩
    rfl
  | cons item items ih =>
    obtain ⟨fuel, rfl⟩ : ∃ n, fuel = n + 1 := ⟨fuel - 1, by omega⟩
    rw [contents_cons, length_append] at hfuel
    have hunits : units (item :: items) = item.units ++ units items := rfl
    rw [contents_cons, append_assoc, hunits]
    cases item with
    | plain c h =>
      have hrest : readUnits fuel (contents items ++ ['"']) = units items :=
        ih (by simp [Item.text] at hfuel; omega)
      show readUnits (fuel + 1) (c :: (contents items ++ ['"'])) = _
      rw [readUnits, if_neg h.1, if_pos h.2.1, hrest]
      rfl
    | short c h =>
      have hrest : readUnits fuel (contents items ++ ['"']) = units items :=
        ih (by simp [Item.text] at hfuel; omega)
      have hu : ¬(c :: (contents items ++ ['"'])).head? = some 'u' := by
        intro heq
        rw [Option.some.inj heq] at h
        exact absurd h (by decide)
      show readUnits (fuel + 1) ('\\' :: c :: (contents items ++ ['"'])) = _
      rw [readUnits, if_neg (by decide), if_neg (not_not.mpr rfl), if_neg hu]
      show (Json.unescape c).toList.flatMap utf16 ++ readUnits fuel (contents items ++ ['"']) = _
      rw [hrest]
      rfl
    | unicode hex =>
      have hlength : (Item.unicode hex).text.length = 6 := by simp [Item.text, hex.four]
      have hrest : readUnits fuel (contents items ++ ['"']) = units items := ih (by omega)
      have hhex := readHexCodeUnit_eq_some.mpr
        ⟨hex, (rfl : hex.digits ++ (contents items ++ ['"']) = _), rfl⟩
      have hdrop : (hex.digits ++ (contents items ++ ['"'])).drop 4 = contents items ++ ['"'] := by
        rw [← hex.four, drop_left]
      show readUnits (fuel + 1) ('\\' :: 'u' :: (hex.digits ++ (contents items ++ ['"']))) = _
      rw [readUnits, if_neg (by decide), if_neg (not_not.mpr rfl), List.head?_cons, if_pos rfl]
      show ((readHexCodeUnit (hex.digits ++ (contents items ++ ['"']))).map Prod.fst).toList ++
        readUnits fuel ((hex.digits ++ (contents items ++ ['"'])).drop 4) = _
      rw [hhex, hdrop, hrest]
      rfl

/-- A parser whose values are the texts. -/
noncomputable def grammarParse : JsonParse (List Char) where
  parse chars := @ite _ (IsText chars) (Classical.propDecidable _) (some chars) none
  asString chars := readUnits chars.length chars.tail

theorem grammarParse_follows : grammarParse.FollowsRfc := by
  constructor
  · intro chars
    rw [grammarParse]
    by_cases h : IsText chars
    · simp [h]
    · simp [h]
  · intro items value hvalue
    have htext : IsText (quoted items) :=
      ⟨.nil, .string items, .nil, (append_nil _).symm⟩
    have heq : some (quoted items) = some value := by
      rw [← hvalue]
      exact (if_pos htext).symm
    rw [← Option.some.inj heq]
    show readUnits (quoted items).length (contents items ++ ['"']) = _
    refine readUnits_contents items ?_
    simp only [quoted, length_append, length_cons]
    omega

/-- An array of one number: what the bytes `[0]` are. -/
theorem parseStrictJson_accepts_array :
    parseStrictJson grammarParse [0x5b, 0x30, 0x5d] 3 ≠ .error .fuel ∧
      ((∃ value, parseStrictJson grammarParse [0x5b, 0x30, 0x5d] 3 = .ok value) ↔
        [0x5b, 0x30, 0x5d].length ≤ 3 ∧ ¬byteOrderMark <+: [0x5b, 0x30, 0x5d] ∧
          ∃ text, JsonText.encode text = [0x5b, 0x30, 0x5d] ∧ StrictText text) ∧
      ∀ source, scan grammarParse source = .ok () → (grammarParse.parse source).isSome = true :=
  parseStrictJson_accepts grammarParse_follows [0x5b, 0x30, 0x5d] 3

end Orkworksd.Desktop.StrictJson
