import Orkworksd.Lib.JsonGrammar
import Orkworksd.Lib.Text

/- The JSON payload of a model's answer (`extract_json` of `peon.rs`): the bytes from the
   first brace are counted up to the one that closes it, strings and their escapes left out
   of account.

   `Passes` says what the loop makes of a piece of the text. A node inside an object is
   passed at its depth (`node_passes`, by the recursion of the grammar's trees), so the loop
   stops at an object's own brace (`extractJson_object`). -/
namespace Orkworksd.Peon.ExtractJson
open List

open Lib Lib.JsonGrammar

/-! ## The source -/

/-- The variables of the loop. -/
structure Scan where
  depth : Nat
  inString : Bool
  escaped : Bool
  deriving DecidableEq, Repr

/-- What one byte does: the loop goes on, or returns at the byte or without a result. -/
inductive Step where
  | next (scan : Scan)
  | found
  | none
  deriving DecidableEq, Repr

def Scan.step (scan : Scan) (byte : UInt8) : Step :=
  if scan.inString then
    if scan.escaped then .next { scan with escaped := false }
    else if byte = 0x5c then .next { scan with escaped := true }
    else if byte = 0x22 then .next { scan with inString := false }
    else .next scan
  else if byte = 0x22 then .next { scan with inString := true }
  else if byte = 0x7b then .next { scan with depth := scan.depth + 1 }
  else if byte = 0x7d then
    -- `checked_sub`
    match scan.depth with
    | 0 => .none
    | depth + 1 => if depth = 0 then .found else .next { scan with depth }
  else .next scan

/-- The loop: the offset at which it returns. -/
def extractLoop (scan : Scan) (offset : Nat) : List UInt8 → Option Nat
  | [] => none
  | byte :: bytes =>
    match scan.step byte with
    | .next scan => extractLoop scan (offset + 1) bytes
    | .found => some offset
    | .none => none

/-- `extract_json`: the slice ends at a brace, so it never panics. -/
def extractJson (raw : List Char) : Option (List Char) :=
  let rest := raw.dropWhile (· ≠ brace)
  if rest = [] then none
  else (extractLoop ⟨0, false, false⟩ 0 (JsonText.encode rest)).bind
    (fun offset => Text.takeBytes (offset + 1) rest)

/-! ## What the loop makes of a text -/

/-- The loop goes through the text, from one state of its variables to another. -/
def Passes (s t : Scan) (chars : List Char) : Prop :=
  ∀ offset rest, extractLoop s offset (JsonText.encode chars ++ rest) =
    extractLoop t (offset + (JsonText.encode chars).length) rest

/-- Outside a string. -/
def outside (depth : Nat) : Scan := ⟨depth, false, false⟩

def inside (depth : Nat) : Scan := ⟨depth, true, false⟩

section passes
variable {s t u : Scan} {x y : List Char} {depth : Nat} {c : Char}

theorem passes_nil (s : Scan) : Passes s s [] := fun _ _ => rfl

theorem Passes.append (hx : Passes s t x) (hy : Passes t u y) : Passes s u (x ++ y) := by
  intro offset rest
  rw [JsonText.encode_append, append_assoc, hx, hy, length_append, Nat.add_assoc]

theorem passes_bytes {bytes : List UInt8} (h : ∀ byte ∈ bytes, s.step byte = .next s)
    (offset : Nat) (rest : List UInt8) :
    extractLoop s offset (bytes ++ rest) = extractLoop s (offset + bytes.length) rest := by
  induction bytes generalizing offset with
  | nil => rfl
  | cons byte bytes ih =>
    obtain ⟨hbyte, hbytes⟩ := forall_mem_cons.mp h
    rw [cons_append, extractLoop, hbyte]
    show extractLoop s (offset + 1) (bytes ++ rest) = _
    rw [ih hbytes, length_cons]
    congr 1
    omega

theorem passes_ascii (hc : c.toNat < 0x80) (h : s.step (UInt8.ofNat c.toNat) = .next t) :
    Passes s t [c] := by
  intro offset rest
  rw [JsonText.encode_singleton hc, singleton_append, extractLoop, h]
  rfl

theorem byte_ne {d : Char} (hd : d.toNat < 0x80) (hc : c ≠ d) {byte : UInt8}
    (hbyte : byte ∈ String.utf8EncodeChar c) : byte ≠ UInt8.ofNat d.toNat := by
  have hbytes : UInt8.ofNat d.toNat ∉ JsonText.encode [c] :=
    JsonText.notMem_encode hd (fun hmem => hc (mem_singleton.mp hmem).symm)
  rw [JsonText.encode_cons, JsonText.encode_nil, append_nil] at hbytes
  exact fun heq => hbytes (heq ▸ hbyte)

theorem passes_quiet (hquote : c ≠ '"') (hbrace : c ≠ brace) (hclose : c ≠ closeBrace) :
    Passes (outside depth) (outside depth) [c] := by
  intro offset rest
  rw [JsonText.encode_cons, JsonText.encode_nil, append_nil]
  refine passes_bytes (fun byte hbyte => ?_) offset rest
  have hquote : byte ≠ 0x22 := byte_ne (d := '"') (by decide) hquote hbyte
  have hbrace : byte ≠ 0x7b := byte_ne (by decide) hbrace hbyte
  have hclose : byte ≠ 0x7d := byte_ne (by decide) hclose hbyte
  simp [Scan.step, outside, hquote, hbrace, hclose]

theorem passes_all (h : ∀ c ∈ x, c ≠ '"' ∧ c ≠ brace ∧ c ≠ closeBrace) :
    Passes (outside depth) (outside depth) x := by
  induction x with
  | nil => exact passes_nil _
  | cons c x ih =>
    obtain ⟨⟨hquote, hbrace, hclose⟩, hx⟩ := forall_mem_cons.mp h
    exact (passes_quiet hquote hbrace hclose).append (ih hx)

/-! ## The leaves of the grammar -/

theorem passes_blank (blank : Blank) : Passes (outside depth) (outside depth) blank.chars := by
  refine passes_all (fun c hc => ?_)
  have hspace := blank.spaces c hc
  refine ⟨?_, ?_, ?_⟩ <;> intro heq <;> rw [heq] at hspace <;> exact absurd hspace (by decide)

theorem passes_word (word : Word) : Passes (outside depth) (outside depth) word.text := by
  have hall : word.text.all
      (fun c => decide (c ≠ '"' ∧ c ≠ brace ∧ c ≠ closeBrace)) = true := by cases word <;> decide
  exact passes_all (fun c hc => of_decide_eq_true (all_eq_true.mp hall c hc))

theorem passes_digits (digits : Digits) :
    Passes (outside depth) (outside depth) digits.chars := by
  refine passes_all (fun c hc => ?_)
  have hdigit := digits.digits c hc
  refine ⟨?_, ?_, ?_⟩ <;> intro heq <;> rw [heq] at hdigit <;> exact absurd hdigit (by decide)

theorem passes_number (number : Number) :
    Passes (outside depth) (outside depth) number.text := by
  have hminus : Passes (outside depth) (outside depth) (if number.minus then ['-'] else []) := by
    cases number.minus with
    | false => exact passes_nil _
    | true => exact passes_quiet (by decide) (by decide) (by decide)
  have hfraction : Passes (outside depth) (outside depth)
      ((number.fraction.map (fun f => '.' :: f.chars)).getD []) := by
    cases number.fraction with
    | none => exact passes_nil _
    | some f =>
      exact (passes_quiet (c := '.') (by decide) (by decide) (by decide)).append (passes_digits f)
  have hexponent : Passes (outside depth) (outside depth)
      ((number.exponent.map (fun e => e.letter :: e.sign.toList ++ e.digits.chars)).getD []) := by
    cases number.exponent with
    | none => exact passes_nil _
    | some e =>
      have hletter : Passes (outside depth) (outside depth) [e.letter] := by
        obtain h | h := e.isLetter <;> rw [h] <;>
          exact passes_quiet (by decide) (by decide) (by decide)
      have hsign : Passes (outside depth) (outside depth) e.sign.toList := by
        refine passes_all (fun c hc => ?_)
        obtain h | h := e.isSign c (Option.mem_toList.mp hc) <;> rw [h] <;> decide
      exact (hletter.append hsign).append (passes_digits e.digits)
  exact ((hminus.append (passes_digits number.whole)).append hfraction).append hexponent

theorem passes_plain (hquote : c ≠ '"') (hbackslash : c ≠ '\\') :
    Passes (inside depth) (inside depth) [c] := by
  intro offset rest
  rw [JsonText.encode_cons, JsonText.encode_nil, append_nil]
  refine passes_bytes (fun byte hbyte => ?_) offset rest
  have hquote : byte ≠ 0x22 := byte_ne (d := '"') (by decide) hquote hbyte
  have hbackslash : byte ≠ 0x5c := byte_ne (d := '\\') (by decide) hbackslash hbyte
  simp [Scan.step, inside, hquote, hbackslash]

/-- An escape: whatever one-byte character follows the backslash is not looked at. -/
theorem passes_escape (hc : c.toNat < 0x80) :
    Passes (inside depth) (inside depth) ['\\', c] :=
  Passes.append (x := ['\\']) (t := ⟨depth, true, true⟩) (passes_ascii (by decide) rfl)
    (passes_ascii hc rfl)

theorem unescape_ascii (h : (Json.unescape c).isSome = true) : c.toNat < 0x80 := by
  by_contra hc
  have hne {d : Char} (hd : d.toNat < 0x80) : c ≠ d := fun heq => hc (heq ▸ hd)
  have hnone : Json.unescape c = none := by
    rw [Json.unescape, if_neg, if_neg (hne (by decide)), if_neg (hne (by decide)),
      if_neg (hne (by decide)), if_neg (hne (by decide)), if_neg (hne (by decide))]
    simp only [not_or]
    exact ⟨hne (by decide), hne (by decide), hne (by decide)⟩
  rw [hnone] at h
  exact absurd h Bool.false_ne_true

theorem passes_item (item : Item) : Passes (inside depth) (inside depth) item.text := by
  cases item with
  | plain c h => exact passes_plain h.1 h.2.1
  | short c h => exact passes_escape (unescape_ascii h)
  | unicode hex =>
    have hdigits : ∀ digits : List Char, (∀ c ∈ digits, (Json.hexValue c).isSome = true) →
        Passes (inside depth) (inside depth) digits := by
      intro digits h
      induction digits with
      | nil => exact passes_nil _
      | cons c digits ih =>
        obtain ⟨hc, hdigits⟩ := forall_mem_cons.mp h
        refine Passes.append (x := [c]) (passes_plain ?_ ?_) (ih hdigits) <;> intro heq <;>
          rw [heq] at hc <;> exact absurd hc (by decide)
    exact (passes_escape (c := 'u') (by decide)).append (hdigits hex.digits hex.hexadecimal)

theorem passes_quoted (items : List Item) :
    Passes (outside depth) (outside depth) (quoted items) := by
  have hcontents : Passes (inside depth) (inside depth) (contents items) := by
    induction items with
    | nil => exact passes_nil _
    | cons item items ih => exact (passes_item item).append ih
  have hopen : Passes (outside depth) (inside depth) ['"'] := passes_ascii (by decide) rfl
  have hclose : Passes (inside depth) (outside depth) ['"'] := passes_ascii (by decide) rfl
  exact (hopen.append hcontents).append hclose

/-! ## The values -/

theorem passes_key (key : Key) : Passes (outside depth) (outside depth) key.text :=
  (((passes_blank key.before).append (passes_quoted key.items)).append
    (passes_blank key.after)).append
    (Passes.append (x := [':']) (passes_quiet (by decide) (by decide) (by decide))
      (passes_blank key.next))

theorem passes_comma : Passes (outside depth) (outside depth) [','] :=
  passes_quiet (by decide) (by decide) (by decide)

theorem passes_brace : Passes (outside depth) (outside (depth + 1)) [brace] :=
  passes_ascii (by decide) rfl

theorem passes_closeBrace : Passes (outside (depth + 2)) (outside (depth + 1)) [closeBrace] :=
  passes_ascii (by decide) rfl

theorem Passes.between (h : Passes (outside depth) (outside depth) x) (before after : Blank) :
    Passes (outside depth) (outside depth) (before.chars ++ x ++ after.chars) :=
  ((passes_blank before).append h).append (passes_blank after)

theorem Passes.member (h : Passes (outside depth) (outside depth) x) (key : Key) (after : Blank) :
    Passes (outside depth) (outside depth) (key.text ++ x ++ after.chars) :=
  ((passes_key key).append h).append (passes_blank after)

mutual
theorem node_passes (node : Node) (depth : Nat) :
    Passes (outside (depth + 1)) (outside (depth + 1)) node.text := by
  match node with
  | .word word => exact passes_word word
  | .number number => exact passes_number number
  | .string items => exact passes_quoted items
  | .emptyArray blank =>
    exact (Passes.append (x := ['[']) (passes_quiet (by decide) (by decide) (by decide))
      (passes_blank blank)).append (passes_quiet (by decide) (by decide) (by decide))
  | .array elements =>
    exact Passes.append (x := ['[']) (passes_quiet (by decide) (by decide) (by decide))
      (elements_passes elements depth)
  | .emptyObject blank =>
    exact (Passes.append (x := [brace]) passes_brace (passes_blank blank)).append passes_closeBrace
  | .object members =>
    obtain ⟨body, hbody, hpasses⟩ := members_passes members
    rw [Node.text, hbody]
    exact Passes.append (x := [brace]) passes_brace ((hpasses (depth + 1)).append passes_closeBrace)

theorem elements_passes (elements : Elements) (depth : Nat) :
    Passes (outside (depth + 1)) (outside (depth + 1)) elements.text := by
  match elements with
  | .last before item after =>
    exact ((node_passes item depth).between before after).append
      (passes_quiet (by decide) (by decide) (by decide))
  | .more before item after rest =>
    exact ((node_passes item depth).between before after).append
      (Passes.append (x := [',']) passes_comma (elements_passes rest depth))

theorem members_passes (members : ObjectMembers) :
    ∃ body, members.text = body ++ [closeBrace] ∧
      ∀ depth, Passes (outside (depth + 1)) (outside (depth + 1)) body := by
  match members with
  | .last key value after =>
    exact ⟨key.text ++ value.text ++ after.chars, rfl, fun depth =>
      (node_passes value depth).member key after⟩
  | .more key value after rest =>
    obtain ⟨body, hbody, hpasses⟩ := members_passes rest
    refine ⟨key.text ++ value.text ++ after.chars ++ ',' :: body, ?_, fun depth => ?_⟩
    · rw [ObjectMembers.text, hbody]
      simp
    · exact ((node_passes value depth).member key after).append
        (Passes.append (x := [',']) passes_comma (hpasses depth))
end

end passes

/-! ## The payload -/

/-- An object: braces, and between them what the loop passes. -/
def IsObject : Node → Prop
  | .emptyObject _ | .object _ => True
  | _ => False

theorem object_body {node : Node} (h : IsObject node) :
    ∃ body, node.text = brace :: body ++ [closeBrace] ∧ Passes (outside 1) (outside 1) body := by
  cases node with
  | emptyObject blank => exact ⟨blank.chars, rfl, passes_blank blank⟩
  | object members =>
    obtain ⟨body, hbody, hpasses⟩ := members_passes members
    exact ⟨body, congrArg (brace :: ·) hbody, hpasses 0⟩
  | word _ => exact absurd h id
  | number _ => exact absurd h id
  | string _ => exact absurd h id
  | emptyArray _ => exact absurd h id
  | array _ => exact absurd h id

theorem takeBytes_append (x y : List Char) :
    Text.takeBytes (JsonText.encode x).length (x ++ y) = some x := by
  induction x with
  | nil => rw [JsonText.encode_nil, length_nil, Text.takeBytes]
  | cons c x ih =>
    have hpos := c.utf8Size_pos
    rw [JsonText.encode_cons, length_append, String.length_utf8EncodeChar]
    obtain ⟨n, hn⟩ : ∃ n, c.utf8Size + (JsonText.encode x).length = n + 1 :=
      ⟨c.utf8Size + (JsonText.encode x).length - 1, by omega⟩
    rw [hn, cons_append, Text.takeBytes, if_pos (by omega), ← hn, Nat.add_sub_cancel_left, ih]
    rfl

/-- The first object is found and nothing else: what comes before it has no brace, and what
comes after it may be anything. -/
theorem extractJson_object (before : List Char) (hbefore : brace ∉ before) (node : Node)
    (hnode : IsObject node) (after : List Char) :
    extractJson (before ++ node.text ++ after) = some node.text := by
  obtain ⟨body, htext, hpasses⟩ := object_body hnode
  have hne : ∀ c ∈ before, decide (c ≠ brace) = true := fun c hc =>
    decide_eq_true (fun heq : c = brace => hbefore (heq ▸ hc))
  have hrest : (before ++ node.text ++ after).dropWhile (· ≠ brace) = node.text ++ after := by
    rw [append_assoc, dropWhile_append_of_pos hne, htext, cons_append,
      cons_append, dropWhile_cons_of_neg (by simp)]
  have hopen : Passes (outside 0) (outside 1) [brace] := passes_brace
  -- the loop returns at the brace that follows the body
  have hloop : extractLoop (outside 0) 0 (JsonText.encode (node.text ++ after)) =
      some (JsonText.encode (brace :: body)).length := by
    have hbytes : JsonText.encode (node.text ++ after) = JsonText.encode ([brace] ++ body) ++
        UInt8.ofNat closeBrace.toNat :: JsonText.encode after := by
      have hclose : JsonText.encode [closeBrace] = [UInt8.ofNat closeBrace.toNat] :=
        JsonText.encode_singleton (by decide)
      rw [htext, JsonText.encode_append, ← singleton_append, JsonText.encode_append, hclose,
        append_assoc, singleton_append, singleton_append]
    rw [hbytes, (hopen.append hpasses), extractLoop, Nat.zero_add]
    rfl
  have hlength : (JsonText.encode (brace :: body)).length + 1 =
      (JsonText.encode node.text).length := by
    rw [htext, JsonText.encode_append, length_append]
    rfl
  rw [extractJson, hrest, if_neg (by rw [htext]; exact cons_ne_nil _ _)]
  show (extractLoop (outside 0) 0 _).bind _ = _
  rw [hloop, Option.bind_some, hlength, takeBytes_append]

/-- An object whose only name is a quote and a closing brace. -/
def quoteBrace : Node :=
  .object (.last ⟨.nil, [.short '"' rfl, .plain closeBrace (by decide)], .nil, .nil⟩
    (.emptyObject .nil) .nil)

theorem extractJson_quoteBrace :
    extractJson (['A', ':'] ++ quoteBrace.text ++ [closeBrace, brace, '"']) =
      some quoteBrace.text :=
  extractJson_object ['A', ':'] (by decide) quoteBrace trivial [closeBrace, brace, '"']

end Orkworksd.Peon.ExtractJson
