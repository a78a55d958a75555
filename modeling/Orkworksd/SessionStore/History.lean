import Mathlib.Data.Prod.Lex
import Orkworksd.Lib.JsonSize
import Orkworksd.Lib.Paging
import Orkworksd.SessionStore.Tombstones

/- The history of a workspace, page by page (`session_store/queries.rs`).

   A query is answered in one read transaction: it is checked, the cursor it passes on is
   compared with the header of the store, and the rows behind the cursor are taken until the
   limit or the byte budget of a page is reached. The search index of SQLite, the digest and
   the header of the store are parameters (`Engine`). The time that a read may take is left
   out. -/
namespace Orkworksd.SessionStore
open Lib Metadata

/-! ## Queries and pages -/

structure Cursor where
  epoch : String
  workspace : String
  generation : Int
  digest : String
  recency : Int
  id : String
  deriving DecidableEq, Repr

structure HistoryQuery where
  state : Option String
  harness : Option String
  repository : Option String
  branch : Option String
  text : String
  limit : Option Nat
  cursor : Option Cursor

structure Summary where
  id : String
  createdAt : String
  revision : Nat
  organizationRevision : Nat
  state : RowState
  recency : Int
  title : String
  summary : Option String
  repository : Option String
  branch : Option String
  harness : String
  model : String
  nativeId : String
  previewTruncated : Bool
  deriving DecidableEq, Repr

structure Page where
  rows : List Summary
  cursor : Option Cursor
  hasMore : Bool
  generation : Nat
  deriving DecidableEq, Repr

/-- The header of the store, and what the code asks of SQLite's search and of SHA-256. -/
structure Engine where
  epoch : String
  workspace : String
  sha256Hex : List UInt8 → String
  /-- The terms of a text, as the tokenizer `unicode61` gives them. -/
  terms : String → List String
  /-- Whether an entry of the search index matches an expression. -/
  matching : String → SearchRow → Bool

/-! ## As JSON -/

def RowState.text : RowState → String
  | .active => "active"
  | .closed => "closed"
  | .archived => "archived"
  | .unknown => "unknown"

def nullable (text : Option String) : Json := (text.map Json.string).getD .null

def Summary.members (s : Summary) : Members :=
  [("id", .string s.id), ("created_at", .string s.createdAt),
    ("revision", .string (toString s.revision)),
    ("organization_revision", .string (toString s.organizationRevision)),
    ("state", .string s.state.text), ("recency", .number (toString s.recency)),
    ("title", .string s.title), ("summary", nullable s.summary),
    ("repository", nullable s.repository), ("branch", nullable s.branch),
    ("harness", .string s.harness), ("model", .string s.model),
    ("native_id", .string s.nativeId), ("preview_truncated", .bool s.previewTruncated)]

def Summary.json (s : Summary) : Json := .object s.members

def Cursor.members (c : Cursor) : Members :=
  [("epoch", .string c.epoch), ("workspace", .string c.workspace),
    ("generation", .number (toString c.generation)), ("digest", .string c.digest),
    ("recency", .number (toString c.recency)), ("id", .string c.id)]

def Cursor.json (c : Cursor) : Json := .object c.members

def Page.members (page : Page) : Members :=
  [("rows", .array (page.rows.map Summary.json)),
    ("cursor", (page.cursor.map Cursor.json).getD .null), ("has_more", .bool page.hasMore),
    ("generation", .number (toString page.generation))]

def Page.json (page : Page) : Json := .object page.members

/-! ## Rows -/

/-- `substr(text,1,n)`: SQLite counts characters and ends at a NUL. -/
def substr (text : String) (n : Nat) : String :=
  String.ofList ((text.toList.takeWhile (fun c => c ≠ Char.ofNat 0)).take n)

def cut (text : String) (n : Nat) : Bool := (substr text n).utf8ByteSize < text.utf8ByteSize

def previewTruncated (row : SessionRow) : Bool :=
  cut row.title 192 || cut (row.summary.getD "") 320 || cut (row.repository.getD "") 128 ||
    cut (row.branch.getD "") 64 || cut row.harness 64 || cut row.model 64 || cut row.nativeId 128

/-- `coalesce(o.revision,'0')` of the joined row. -/
def organizationRevision (db : Database) (id created : String) : Nat :=
  let chosen := (db.organization.get id).filter (fun o => o.createdAt = created)
  (chosen.map (fun o => o.revision)).getD 0

def summaryOf (db : Database) (id : String) (row : SessionRow) : Summary where
  id := id
  createdAt := row.createdAt
  revision := row.revision
  organizationRevision := organizationRevision db id row.createdAt
  state := row.state
  recency := row.recency
  title := substr row.title 192
  summary := row.summary.map (substr · 320)
  repository := row.repository.map (substr · 128)
  branch := row.branch.map (substr · 64)
  harness := substr row.harness 64
  model := substr row.model 64
  nativeId := substr row.nativeId 128
  previewTruncated := previewTruncated row

def Summary.key (s : Summary) : Int ×ₗ String := toLex (s.recency, s.id)
def Cursor.key (c : Cursor) : Int ×ₗ String := toLex (c.recency, c.id)

/-! ## Checks -/

def searchRefused (text : String) : Bool :=
  256 < text.utf8ByteSize
    || text.toList.any (fun c => ['"', '*', ':', '(', ')', '^', Char.ofNat 0x7b, Char.ofNat 0x7d,
        '+'].contains c || (Text.isControl c && !Text.isWhitespace c))
    || (Text.splitWhitespace text.toList).any (fun word =>
        ["OR", "AND", "NOT", "NEAR"].contains (String.ofList word) || word.head? = some '-')

/-- A term in quotes, whose own quotes are doubled. -/
def quoteTerm (term : String) : String :=
  "\"" ++ String.ofList (term.toList.flatMap (fun c => if c = '"' then ['"', '"'] else [c])) ++ "\""

/-- The search expression of a text: the terms in quotes, the last of them a beginning. -/
def tokens (engine : Engine) (text : String) : Result (Option String) :=
  if searchRefused text then .error (.invalid "invalid metadata search")
  else if (Text.trim text.toList).isEmpty then .ok none
  else
    let terms := (engine.terms text).take 9
    if terms.isEmpty || 8 < terms.length then .error (.invalid "invalid metadata search")
    else .ok (some (" AND ".intercalate (terms.map quoteTerm) ++ "*"))

def HistoryQuery.size (query : HistoryQuery) : Nat := query.limit.getD 50

/-- The checks before the transaction, and the search expression. -/
def checkQuery (engine : Engine) (query : HistoryQuery) : Result (Option String) :=
  if !(1 ≤ query.size && query.size ≤ 100)
      || query.state.any (fun s => !(["closed", "archived", "all"].contains s)) then
    .error (.invalid "invalid history query")
  else if [query.harness, query.repository, query.branch].any
      (fun value => value.any (fun v => 4096 < v.utf8ByteSize)) then
    .error .tooLarge
  else tokens engine query.text

def digest (engine : Engine) (query : HistoryQuery) : String :=
  engine.sha256Hex (Json.array [nullable query.state, nullable query.harness,
    nullable query.repository, nullable query.branch, .string query.text]).bytes

def workspaceHash (engine : Engine) : String :=
  engine.sha256Hex (JsonText.encode engine.workspace.toList)

def staleCursor (engine : Engine) (db : Database) (query : HistoryQuery) (c : Cursor) : Bool :=
  2048 < c.json.size || c.epoch ≠ engine.epoch || c.workspace ≠ workspaceHash engine
    || c.generation ≠ db.generation || c.digest ≠ digest engine query

/-! ## The rows of a query -/

def inScope (state : Option String) (row : SessionRow) : Bool :=
  if state = some "closed" then row.state = .closed
  else if state = some "archived" then row.state = .archived
  else row.state = .closed || row.state = .unknown

/-- `s.id IN (SELECT id FROM metadata_search WHERE metadata_search MATCH ?)`. -/
def searched (engine : Engine) (db : Database) (search : Option String) (id : String) : Bool :=
  search.all (fun expression =>
    db.metadataSearch.any (fun entry => entry.2.id = id && engine.matching expression entry.2))

/-- The conditions of a query but for its cursor. -/
def selects (engine : Engine) (db : Database) (query : HistoryQuery) (search : Option String)
    (id : String) (row : SessionRow) : Bool :=
  row.deleted = false && inScope query.state row
    && query.harness.all (fun value => row.harness = value)
    && query.repository.all (fun value => row.repository = some value)
    && query.branch.all (fun value => row.branch = some value)
    && searched engine db search id

def selected (engine : Engine) (db : Database) (query : HistoryQuery) (search : Option String) :
    List Summary :=
  (db.sessions.filter (fun entry => selects engine db query search entry.1 entry.2)).map
    (fun entry => summaryOf db entry.1 entry.2)

def found (engine : Engine) (db : Database) (query : HistoryQuery) (search : Option String) :
    List Summary :=
  let behind := (selected engine db query search).filter
    (fun s => query.cursor.all (fun c => s.key < c.key))
  (descending Summary.key behind).take (query.size + 1)

/-! ## A page -/

def maxPageBytes : Nat := 256 * 1024
def maxSummaryBytes : Nat := 8192
/-- What is reserved for the envelope and the cursor of a page. -/
def envelopeBytes : Nat := 4096
def maxCursorBytes : Nat := 2048

/-- Rows are taken until the limit or the budget is reached; the answer says whether one was
left. -/
def fill (limit : Nat) : Nat → List Summary → List Summary → Result (List Summary × Bool)
  | _, rows, [] => .ok (rows, false)
  | bytes, rows, row :: rest =>
    if maxSummaryBytes < row.json.size then .error .tooLarge
    else if rows.length = limit ∨ maxPageBytes < bytes + row.json.size + 1 then .ok (rows, true)
    else fill limit (bytes + row.json.size + 1) (rows ++ [row]) rest

def nextCursor (engine : Engine) (db : Database) (query : HistoryQuery) (rows : List Summary)
    (hasMore : Bool) : Result (Option Cursor) :=
  if hasMore then
    match rows.getLast? with
    | none => .error .tooLarge
    | some last =>
      let c : Cursor :=
        { epoch := engine.epoch
          workspace := workspaceHash engine
          generation := db.generation
          digest := digest engine query
          recency := last.recency
          id := last.id }
      if maxCursorBytes < c.json.size then .error .tooLarge else .ok (some c)
  else .ok none

def history (engine : Engine) (db : Database) (query : HistoryQuery) : Result Page := do
  let search ← checkQuery engine query
  if query.cursor.any (staleCursor engine db query) then .error .conflict
  else
    let (rows, hasMore) ← fill query.size envelopeBytes [] (found engine db query search)
    let cursor ← nextCursor engine db query rows hasMore
    let page : Page := { rows, cursor, hasMore, generation := db.generation }
    if maxPageBytes < page.json.size then .error .tooLarge else .ok page

end Orkworksd.SessionStore
