import Orkworksd.Lib.JsonFields
import Orkworksd.SessionStore.History

/- What one page of the history holds.

   `Sized` bounds everything in the tables that a row of the history does not cut: the
   identity of a session, its revisions and its times. From these bounds no row of the
   history and no cursor is too large (`size_summary`, `size_cursor`), whatever its texts
   are, and the rows of a page are the first of those that were found (`fill_spec`), as many
   as fit.

   Main result: `history_spec`. -/
namespace Orkworksd.SessionStore
open Lib Metadata List
open JsonText (Plain textSize textSize_le textSize_plain)

variable {codec : Codec} {engine : Engine} {db : Database} {id : String} {row : SessionRow}

/-! ## What the tables bound -/

structure Sized (db : Database) : Prop where
  keys : (OrderedMap.keys db.sessions).Nodup
  identity : ∀ {id row}, db.sessions.get id = some row → validIdentity id row.createdAt = true
  revision : ∀ {id row}, db.sessions.get id = some row → row.revision < u64Limit
  recency : ∀ {id row}, db.sessions.get id = some row →
    i64Min ≤ row.recency ∧ row.recency ≤ i64Max
  organization : ∀ {id o}, db.organization.get id = some o → o.revision < u64Limit
  generation : db.generation ≤ i64Max

/-- The epoch is a UUID, and a digest is 64 hexadecimal digits. -/
structure Engine.Lawful (engine : Engine) : Prop where
  epoch : engine.epoch.toList.length = 36 ∧ ∀ c ∈ engine.epoch.toList, Plain c
  digest : ∀ bytes, (engine.sha256Hex bytes).toList.length = 64 ∧
    ∀ c ∈ (engine.sha256Hex bytes).toList, Plain c

/-! ## Sizes -/

variable {c : Char}

theorem plain_alphanum (h : c.isAlphanum = true) : Plain c := by
  have hbounds : 48 ≤ c.toNat ∧ c.toNat ≤ 122 := by
    rcases (Bool.or_eq_true _ _).mp h with halpha | hdigit
    · rcases (Bool.or_eq_true _ _).mp halpha with hupper | hlower
      · obtain ⟨hlow, hhigh⟩ := of_decide_eq_true hupper
        have hlow : 65 ≤ c.toNat := hlow
        have hhigh : c.toNat ≤ 90 := hhigh
        omega
      · obtain ⟨hlow, hhigh⟩ := (Bool.and_eq_true _ _).mp hlower
        have hlow : 97 ≤ c.toNat := of_decide_eq_true hlow
        have hhigh : c.toNat ≤ 122 := of_decide_eq_true hhigh
        omega
    · obtain ⟨hlow, hhigh⟩ := (Bool.and_eq_true _ _).mp hdigit
      have hlow : 48 ≤ c.toNat := of_decide_eq_true hlow
      have hhigh : c.toNat ≤ 57 := of_decide_eq_true hhigh
      omega
  refine ⟨by omega, by omega, ?_, ?_⟩
  · intro heq
    rw [heq] at h
    exact absurd h (by decide)
  · intro heq
    rw [heq] at h
    exact absurd h (by decide)

theorem plain_identity (h : (c.isAlphanum || c == '-' || c == '_') = true) : Plain c := by
  simp only [Bool.or_eq_true, beq_iff_eq] at h
  rcases h with (halphanum | hdash) | hunderscore
  · exact plain_alphanum halphanum
  · rw [hdash]
    decide
  · rw [hunderscore]
    decide

theorem size_identity {created : String} (h : validIdentity id created = true) :
    textSize id.toList ≤ 256 ∧ textSize created.toList ≤ 6 * 256 := by
  simp only [validIdentity, Bool.and_eq_true, decide_eq_true_eq, all_eq_true] at h
  obtain ⟨⟨⟨⟨-, hid⟩, -⟩, hcreated⟩, hchars⟩ := h
  have hid' := Text.length_le_utf8ByteSize id
  have hcreated' := Text.length_le_utf8ByteSize created
  have hplain := textSize_plain (fun c hc => plain_identity (hchars c hc))
  have hle := textSize_le created.toList
  constructor
  · omega
  · omega

theorem size_substr (text : String) (n : Nat) : textSize (substr text n).toList ≤ 6 * n := by
  have hlen : (substr text n).toList.length ≤ n := by
    rw [substr, String.toList_ofList]
    exact length_take_le _ _
  have hle := textSize_le (substr text n).toList
  omega

theorem size_nullable (text : Option String) (n : Nat) :
    (nullable (text.map (substr · n))).size ≤ 6 * n + 4 := by
  cases text with
  | none => exact Nat.le_add_left 4 _
  | some text =>
    have hle := size_substr text n
    show textSize (substr text n).toList + 2 ≤ _
    omega

theorem size_u64 {n : Nat} (h : n < u64Limit) : textSize (toString n).toList ≤ 20 := by
  rw [textSize_plain (Json.digits_plain n)]
  exact Json.length_toString_le (by decide) (Nat.lt_trans h (by decide))

theorem size_i64 {n : Int} (h : i64Min ≤ n ∧ n ≤ i64Max) :
    (Json.number (toString n)).size ≤ 20 := by
  have habs : n.natAbs < 10 ^ 19 := by
    obtain ⟨hlow, hhigh⟩ := h
    have hmin : i64Min = -9223372036854775808 := rfl
    have hmax : (i64Max : Int) = 9223372036854775807 := rfl
    omega
  exact Json.size_integer_le (by decide) habs

theorem size_summary (hdb : Sized db) (hget : db.sessions.get id = some row) :
    (summaryOf db id row).json.size ≤ maxSummaryBytes := by
  obtain ⟨hid, hcreated⟩ := size_identity (hdb.identity hget)
  have hrevision := size_u64 (hdb.revision hget)
  have hrecency := size_i64 (hdb.recency hget)
  have horganization :
      textSize (toString (organizationRevision db id row.createdAt)).toList ≤ 20 := by
    apply size_u64
    rw [organizationRevision]
    cases ho : (db.organization.get id).filter (fun o => o.createdAt = row.createdAt) with
    | none => exact (by decide : 0 < u64Limit)
    | some o => exact hdb.organization (Option.filter_eq_some_iff.mp ho).1
  have hstate : textSize row.state.text.toList ≤ 8 := by
    cases row.state <;> decide
  have hbool : (Json.bool (previewTruncated row)).size ≤ 5 := by
    cases previewTruncated row <;> decide
  have htitle := size_substr row.title 192
  have hsummary := size_nullable row.summary 320
  have hrepository := size_nullable row.repository 128
  have hbranch := size_nullable row.branch 64
  have hharness := size_substr row.harness 64
  have hmodel := size_substr row.model 64
  have hnative := size_substr row.nativeId 128
  have hvalues : ((summaryOf db id row).members.map (fun m => m.2.size)).sum ≤ 7655 := by
    have text {t : String} {n : Nat} (h : textSize t.toList ≤ n) :
        (Json.string t).size ≤ n + 2 := Nat.add_le_add_right h 2
    simp only [Summary.members, summaryOf, map_cons, map_nil, sum_cons, sum_nil]
    -- One bound for each member, in their order.
    exact Nat.add_le_add (text hid) <| Nat.add_le_add (text hcreated) <|
      Nat.add_le_add (text hrevision) <| Nat.add_le_add (text horganization) <|
      Nat.add_le_add (text hstate) <| Nat.add_le_add hrecency <|
      Nat.add_le_add (text htitle) <| Nat.add_le_add hsummary <|
      Nat.add_le_add hrepository <| Nat.add_le_add hbranch <|
      Nat.add_le_add (text hharness) <| Nat.add_le_add (text hmodel) <|
      Nat.add_le_add (text hnative) <| Nat.add_le_add_right hbool 0
  have hkeys : ((summaryOf db id row).members.map (fun m => textSize m.1.toList)).sum = 119 := by
    show (["id", "created_at", "revision", "organization_revision", "state", "recency",
      "title", "summary", "repository", "branch", "harness", "model", "native_id",
      "preview_truncated"].map (fun name => textSize name.toList)).sum = 119
    decide +kernel
  have hsize : (summaryOf db id row).json.size ≤ 2 + 119 + 7655 + 4 * 14 := by
    refine Nat.le_trans (Json.size_object_le _) ?_
    rw [hkeys]
    exact Nat.add_le_add_right (Nat.add_le_add_left hvalues _) _
  exact Nat.le_trans hsize (by decide)

/-- The cursor behind a row. -/
def cursorAt (engine : Engine) (db : Database) (query : HistoryQuery) (last : Summary) :
    Cursor where
  epoch := engine.epoch
  workspace := workspaceHash engine
  generation := db.generation
  digest := digest engine query
  recency := last.recency
  id := last.id

theorem size_cursor (hengine : engine.Lawful) (hdb : Sized db) (query : HistoryQuery)
    (hget : db.sessions.get id = some row) :
    (cursorAt engine db query (summaryOf db id row)).json.size ≤ 533 := by
  have hid := (size_identity (hdb.identity hget)).1
  have hrecency := size_i64 (hdb.recency hget)
  have hgeneration : (Json.number (toString (db.generation : Int))).size ≤ 20 := by
    apply size_i64
    have hle := hdb.generation
    have hmin : i64Min = -9223372036854775808 := rfl
    omega
  have text {t : String} {n : Nat} (h : textSize t.toList ≤ n) :
      (Json.string t).size ≤ n + 2 := Nat.add_le_add_right h 2
  have hepoch : textSize engine.epoch.toList ≤ 36 :=
    (textSize_plain hengine.epoch.2).trans_le hengine.epoch.1.le
  have hhash (bytes : List UInt8) : textSize (engine.sha256Hex bytes).toList ≤ 64 :=
    (textSize_plain (hengine.digest bytes).2).trans_le (hengine.digest bytes).1.le
  have hkeys : ((cursorAt engine db query (summaryOf db id row)).members.map
      (fun m => textSize m.1.toList)).sum = 39 := by
    show (["epoch", "workspace", "generation", "digest", "recency", "id"].map
      (fun name => textSize name.toList)).sum = 39
    decide +kernel
  have hvalues : ((cursorAt engine db query (summaryOf db id row)).members.map
      (fun m => m.2.size)).sum ≤ 468 :=
    Nat.add_le_add (text hepoch) <| Nat.add_le_add (text (hhash _)) <|
      Nat.add_le_add hgeneration <| Nat.add_le_add (text (hhash _)) <|
      Nat.add_le_add hrecency <| Nat.add_le_add_right (text hid) 0
  refine Nat.le_trans (Json.size_object_le _) ?_
  rw [hkeys]
  exact Nat.add_le_add_right (Nat.add_le_add_left hvalues _) _

/-- What the rows of a page take of its budget. -/
def budget (rows : List Summary) : Nat := (rows.map (fun s => s.json.size + 1)).sum

theorem size_rows_le (rows : List Summary) :
    (Json.array (rows.map Summary.json)).size ≤ 2 + budget rows := by
  have hsum : (rows.map (fun s => s.json.size + 1)).sum =
      ((rows.map Summary.json).map Json.size).sum + rows.length := by
    induction rows with
    | nil => rfl
    | cons s rows ih =>
      simp only [map_cons, sum_cons, length_cons, ih]
      omega
  rw [Json.size_array, length_map, budget, hsum]
  omega

theorem size_page {page : Page} (hcursor : ∀ c, page.cursor = some c → c.json.size ≤ 533)
    (hgeneration : page.generation ≤ i64Max) :
    page.json.size ≤ envelopeBytes + budget page.rows := by
  have hrows := size_rows_le page.rows
  have hcursor : ((page.cursor.map Cursor.json).getD .null).size ≤ 533 := by
    cases hc : page.cursor with
    | none => exact (by decide : (4 : Nat) ≤ 533)
    | some c => exact hcursor c hc
  have hmore : (Json.bool page.hasMore).size ≤ 5 := by
    cases page.hasMore <;> decide
  have hgeneration : (Json.number (toString page.generation)).size ≤ 19 :=
    Json.size_natural_le (by decide) (Nat.lt_of_le_of_lt hgeneration (by decide))
  have hkeys : (page.members.map (fun m => textSize m.1.toList)).sum = 28 := by
    show (["rows", "cursor", "has_more", "generation"].map
      (fun name => textSize name.toList)).sum = 28
    decide +kernel
  have hvalues : (page.members.map (fun m => m.2.size)).sum ≤
      2 + budget page.rows + (533 + (5 + (19 + 0))) :=
    Nat.add_le_add hrows <| Nat.add_le_add hcursor <| Nat.add_le_add hmore <|
      Nat.add_le_add_right hgeneration 0
  have hsize : page.json.size ≤ 2 + 28 + (2 + budget page.rows + 557) + 4 * 4 := by
    refine Nat.le_trans (Json.size_object_le _) ?_
    rw [hkeys]
    exact Nat.add_le_add_right (Nat.add_le_add_left hvalues _) _
  have henvelope : envelopeBytes = 4096 := rfl
  omega

/-! ## Filling a page -/

theorem fill_spec (limit bytes : Nat) (shown rest : List Summary)
    (hsize : ∀ s ∈ rest, s.json.size ≤ maxSummaryBytes) (hshown : shown.length ≤ limit)
    (hbytes : bytes ≤ maxPageBytes) :
    ∃ taken left, rest = taken ++ left ∧
      fill limit bytes shown rest = .ok (shown ++ taken, !left.isEmpty) ∧
      (shown ++ taken).length ≤ limit ∧ bytes + budget taken ≤ maxPageBytes ∧
      (taken = [] → left ≠ [] →
        shown.length = limit ∨ maxPageBytes < bytes + maxSummaryBytes + 1) := by
  induction rest generalizing bytes shown with
  | nil =>
    refine ⟨[], [], rfl, ?_, ?_, hbytes, fun _ hne => absurd rfl hne⟩
    · rw [fill, append_nil]
      rfl
    · rw [append_nil]
      exact hshown
  | cons s rest ih =>
    have hs := hsize s mem_cons_self
    rw [fill, if_neg (Nat.not_lt.mpr hs)]
    by_cases hstop : shown.length = limit ∨ maxPageBytes < bytes + s.json.size + 1
    · rw [if_pos hstop]
      refine ⟨[], s :: rest, rfl, ?_, ?_, hbytes, fun _ _ => ?_⟩
      · rw [append_nil]
        rfl
      · rw [append_nil]
        exact hshown
      · exact hstop.imp id (fun hlt => by omega)
    · rw [if_neg hstop]
      obtain ⟨hlimit, hroom⟩ := not_or.mp hstop
      have hnext : (shown ++ [s]).length ≤ limit := by
        rw [length_append, length_singleton]
        omega
      obtain ⟨taken, left, hrest, hfill, hlength, hbudget, -⟩ :=
        ih _ _ (fun s' hs' => hsize s' (mem_cons_of_mem s hs')) hnext (Nat.le_of_not_lt hroom)
      refine ⟨s :: taken, left, ?_, ?_, ?_, ?_, fun heq => nomatch heq⟩
      · rw [hrest, cons_append]
      · rw [hfill, append_assoc, singleton_append]
      · rwa [append_assoc, singleton_append] at hlength
      · rw [budget, map_cons, sum_cons]
        rw [budget] at hbudget
        omega

/-! ## One page -/

variable {search : Option String} {query : HistoryQuery}

variable {s : Summary}

theorem mem_selected (hdb : Sized db) :
    s ∈ selected engine db query search ↔ ∃ id row, db.sessions.get id = some row ∧
      selects engine db query search id row = true ∧ summaryOf db id row = s := by
  rw [selected, mem_map]
  constructor
  · intro h
    obtain ⟨⟨id, row⟩, hmem, hs⟩ := h
    obtain ⟨hentry, hselects⟩ := mem_filter.mp hmem
    exact ⟨id, row, (OrderedMap.get_eq_some_iff hdb.keys).mpr hentry, hselects, hs⟩
  · intro h
    obtain ⟨id, row, hget, hselects, hs⟩ := h
    exact ⟨(id, row), mem_filter.mpr ⟨(OrderedMap.get_eq_some_iff hdb.keys).mp hget, hselects⟩, hs⟩

theorem mem_found (hdb : Sized db) (h : s ∈ found engine db query search) :
    ∃ id row, db.sessions.get id = some row ∧ summaryOf db id row = s := by
  have hbehind := mem_descending.mp (mem_of_mem_take h)
  obtain ⟨id, row, hget, -, hs⟩ := (mem_selected hdb).mp (mem_filter.mp hbehind).1
  exact ⟨id, row, hget, hs⟩

theorem nextCursor_spec {taken left : List Summary} (hengine : engine.Lawful) (hdb : Sized db)
    (query : HistoryQuery)
    (htaken : ∀ s ∈ taken, ∃ id row, db.sessions.get id = some row ∧ summaryOf db id row = s)
    (hne : left ≠ [] → taken ≠ []) :
    ∃ cursor, nextCursor engine db query taken (!left.isEmpty) = .ok cursor ∧
      (∀ c, cursor = some c → c.json.size ≤ 533) ∧ (left = [] → cursor = none) ∧
      (left ≠ [] → ∃ last, taken.getLast? = some last ∧
        cursor = some (cursorAt engine db query last)) := by
  cases left with
  | nil => exact ⟨none, rfl, fun c hc => (by cases hc), fun _ => rfl, fun hno => absurd rfl hno⟩
  | cons s left =>
    obtain ⟨last, hlast⟩ := Option.ne_none_iff_exists'.mp
      (fun hnone => hne (cons_ne_nil s left) (List.getLast?_eq_none_iff.mp hnone))
    obtain ⟨id, row, hget, hrow⟩ := htaken last (mem_of_getLast? hlast)
    have hsize := size_cursor hengine hdb query hget
    rw [hrow] at hsize
    refine ⟨some (cursorAt engine db query last), ?_, ?_, fun heq => (by cases heq), fun _ =>
      ⟨last, hlast, rfl⟩⟩
    · have hfits : ¬ maxCursorBytes < (cursorAt engine db query last).json.size :=
        Nat.not_lt.mpr (Nat.le_trans hsize (by decide))
      simp only [nextCursor, isEmpty_cons, Bool.not_false, if_true, hlast]
      exact if_neg hfits
    · intro c hc
      cases hc
      exact hsize

/-- A query that is well formed and whose cursor is not stale is answered by the first of the
rows that were found, and by a cursor behind the last of them if others are left. -/
theorem history_spec (hengine : engine.Lawful) (hdb : Sized db)
    (hcheck : checkQuery engine query = .ok search)
    (hfresh : query.cursor.any (staleCursor engine db query) = false) :
    ∃ taken left page, found engine db query search = taken ++ left ∧
      history engine db query = .ok page ∧ page.rows = taken ∧ taken.length ≤ query.size ∧
      page.json.size ≤ maxPageBytes ∧ (left = [] → page.cursor = none) ∧
      (left ≠ [] → ∃ last, taken.getLast? = some last ∧
        page.cursor = some (cursorAt engine db query last)) := by
  have hlimit : 1 ≤ query.size := by
    unfold checkQuery at hcheck
    split at hcheck
    · cases hcheck
    · rename_i hno
      simp only [Bool.or_eq_true, Bool.not_eq_true', not_or, Bool.not_eq_false,
        Bool.and_eq_true, decide_eq_true_eq] at hno
      exact hno.1.1
  have hrow : ∀ s ∈ found engine db query search, s.json.size ≤ maxSummaryBytes := by
    intro s hs
    obtain ⟨id, row, hget, rfl⟩ := mem_found hdb hs
    exact size_summary hdb hget
  obtain ⟨taken, left, hfound, hfill, hlength, hbudget, hsome⟩ :=
    fill_spec query.size envelopeBytes [] _ hrow (Nat.zero_le _) (by decide)
  rw [nil_append] at hfill hlength
  have hne : left ≠ [] → taken ≠ [] := by
    intro hleft hnil
    rcases hsome hnil hleft with hzero | hfull
    · exact absurd hzero.symm (Nat.pos_iff_ne_zero.mp hlimit)
    · exact absurd hfull (by decide)
  obtain ⟨cursor, hnext, hsmall, hend, hmore⟩ :=
    nextCursor_spec hengine hdb query
      (fun s hs => mem_found hdb (hfound ▸ mem_append_left _ hs)) hne
  have hpage : (Page.mk taken cursor (!left.isEmpty) db.generation).json.size ≤ maxPageBytes :=
    Nat.le_trans (size_page hsmall hdb.generation) hbudget
  refine ⟨taken, left, _, hfound, ?_, rfl, hlength, hpage, hend, hmore⟩
  simp only [history, hcheck, bind, Except.bind, hfresh, Bool.false_eq_true, if_false, hfill,
    hnext, if_neg (Nat.not_lt.mpr hpage)]

end Orkworksd.SessionStore
