import Orkworksd.SessionStore.HistoryWrites

/- The pages of the history show one state of it.

   A chain of queries passes on the cursor that it was given, and other calls run between
   two of its pages. A cursor carries the generation of the store, so a page that is not
   refused finds the history as the first page found it (`call_kept`), and goes on behind
   the last row that was shown (`Descends.filter_behind`).

   Main result: `history_pages_snapshot`. -/
namespace Orkworksd.SessionStore
open Lib Metadata List OrderedMap

variable {codec : Codec} {engine : Engine} {db db' : Database} {id : String} {row : SessionRow}

variable {search : Option String}

variable {limit : Option Nat}

/-! ## Chains of queries -/

/-- A later query of a chain: the calls that run before it, and its limit. -/
structure Visit where
  calls : List Call
  limit : Option Nat

def HistoryQuery.from (filter : HistoryQuery) (limit : Option Nat) (cursor : Option Cursor) :
    HistoryQuery :=
  { filter with limit, cursor }

def givenCursor (answer : Result Page) : Option Cursor := answer.toOption.bind (·.cursor)

def afterCalls (codec : Codec) (db : Database) (calls : List Call) : Database :=
  calls.foldl (Call.after codec) db

/-- The answers to a chain of queries, as long as it is given cursors. -/
def answers (engine : Engine) (codec : Codec) (filter : HistoryQuery) (db : Database)
    (limit : Option Nat) (cursor : Option Cursor) (visits : List Visit) : List (Result Page) :=
  history engine db (filter.from limit cursor) ::
    match visits with
    | [] => []
    | visit :: visits =>
      match givenCursor (history engine db (filter.from limit cursor)) with
      | none => []
      | some c =>
        answers engine codec filter (afterCalls codec db visit.calls) visit.limit (some c) visits

def shownRows (answers : List (Result Page)) : List Summary :=
  answers.flatMap (fun answer => (answer.toOption.map (·.rows)).getD [])

/-- None of the calls is a patch of an archived session whose record is alive. -/
def quietCalls (codec : Codec) : Database → List Call → Bool
  | _, [] => true
  | db, call :: calls =>
    !call.patchesArchived codec db && quietCalls codec (call.after codec db) calls

def quietVisits (codec : Codec) : Database → List Visit → Bool
  | _, [] => true
  | db, visit :: visits =>
    quietCalls codec db visit.calls && quietVisits codec (afterCalls codec db visit.calls) visits

/-- These are the rows that match the filter, each once, the newest first. -/
structure Shows (engine : Engine) (db : Database) (filter : HistoryQuery) (rows : List Summary) :
    Prop where
  exact : ∃ search, tokens engine filter.text = .ok search ∧ ∀ s, s ∈ rows ↔ ∃ id row,
    db.sessions.get id = some row ∧ selects engine db filter search id row = true ∧
      summaryOf db id row = s
  order : Descends Summary.key rows

/-- The answers to a chain of queries with these limits that begins in these tables. -/
structure SnapshotPaging (engine : Engine) (db : Database) (filter : HistoryQuery)
    (limits : List (Option Nat)) (answers : List (Result Page)) : Prop where
  /-- A query is refused for its own limit and filter, or with a conflict. -/
  refused : ∀ e, .error e ∈ answers → e = .conflict ∨
    ∃ limit ∈ limits, checkQuery engine (filter.from limit none) = .error e
  pages : ∀ page, .ok page ∈ answers →
    page.json.size ≤ maxPageBytes ∧ (page.cursor ≠ none → page.rows ≠ [])
  /-- The pages up to the one without a cursor show what the first one found. -/
  exact : ∀ last, answers.getLast? = some (.ok last) → last.cursor = none →
    Shows engine db filter (shownRows answers)
  /-- A chain comes to its end. -/
  bounded : answers.length ≤ db.sessions.length + 1

/-! ## What a query selects -/

/-- The conditions of a query on the row of a session that the history shows. -/
def rowMatches (engine : Engine) (query : HistoryQuery) (search : Option String) (id : String)
    (row : SessionRow) : Bool :=
  inScope query.state row
    && query.harness.all (fun value => row.harness = value)
    && query.repository.all (fun value => row.repository = some value)
    && query.branch.all (fun value => row.branch = some value)
    && search.all (fun expression => engine.matching expression (row.searchRow id))

theorem inScope_active {state : Option String} (h : row.state = .active) :
    inScope state row = false := by
  unfold inScope
  rw [h]
  split
  · rfl
  · split
    · rfl
    · rfl

theorem searched_iff (hc : Consistent db) (hget : db.sessions.get id = some row)
    (hvisible : row.deleted = false) (search : Option String) :
    searched engine db search id =
      search.all (fun expression => engine.matching expression (row.searchRow id)) := by
  cases search with
  | none => rfl
  | some expression =>
    obtain ⟨-, hentry, -⟩ := (hc.rows hget).visible hvisible
    have hmem := (get_eq_some_iff hc.single).mp hentry
    show db.metadataSearch.any _ = engine.matching expression (row.searchRow id)
    apply Bool.eq_iff_iff.mpr
    rw [any_eq_true]
    constructor
    · intro h
      obtain ⟨⟨key, entry⟩, hfound, hboth⟩ := h
      obtain ⟨hid, hmatch⟩ := Bool.and_eq_true_iff.mp hboth
      obtain ⟨j, row', hget', hvisible', rfl⟩ :=
        hc.index ((get_eq_some_iff hc.single).mpr hfound)
      obtain ⟨-, hentry', -⟩ := (hc.rows hget').visible hvisible'
      have hsame := ((get_eq_some_iff hc.single).mpr hfound).symm.trans hentry'
      cases hsame
      have hj : j = id := of_decide_eq_true hid
      subst hj
      cases hget.symm.trans hget'
      exact hmatch
    · intro hmatch
      refine ⟨(row.searchRowid, row.searchRow id), hmem, Bool.and_eq_true_iff.mpr ⟨?_, hmatch⟩⟩
      exact decide_eq_true rfl

theorem selects_iff (hc : Consistent db) (query : HistoryQuery) (search : Option String)
    (hget : db.sessions.get id = some row) :
    selects engine db query search id row = true ↔
      shownRow db id = some row ∧ rowMatches engine query search id row = true := by
  unfold selects rowMatches shownRow
  cases hdeleted : row.deleted with
  | true =>
    rw [hget, Option.filter_some, hdeleted]
    simp
  | false =>
    rw [searched_iff hc hget hdeleted, hget, Option.filter_some, hdeleted]
    by_cases hactive : row.state = .active
    · rw [inScope_active hactive]
      simp
    · simp [hactive]

theorem shownRow_stored (h : shownRow db id = some row) : db.sessions.get id = some row :=
  (Option.filter_eq_some_iff.mp h).1

theorem mem_selected_same (hc : Consistent db) (hdb : Sized db) (hc' : Consistent db')
    (hdb' : Sized db') (hsame : SameHistory db db') (query : HistoryQuery)
    (search : Option String) (s : Summary) :
    s ∈ selected engine db' query search ↔ s ∈ selected engine db query search := by
  have hsummary : ∀ {id row}, shownRow db id = some row →
      summaryOf db' id row = summaryOf db id row := by
    intro id row hrow
    rw [summaryOf, summaryOf, hsame.revisions id row hrow]
  rw [mem_selected hdb, mem_selected hdb']
  constructor
  · intro h
    obtain ⟨id, row, hget, hselects, hs⟩ := h
    obtain ⟨hshown, hmatches⟩ := (selects_iff hc' query search hget).mp hselects
    have hshown := (hsame.rows id).symm.trans hshown
    have hget := shownRow_stored hshown
    exact ⟨id, row, hget, (selects_iff hc query search hget).mpr ⟨hshown, hmatches⟩,
      (hsummary hshown).symm.trans hs⟩
  · intro h
    obtain ⟨id, row, hget, hselects, hs⟩ := h
    obtain ⟨hshown, hmatches⟩ := (selects_iff hc query search hget).mp hselects
    have hshown' := (hsame.rows id).trans hshown
    have hget := shownRow_stored hshown'
    exact ⟨id, row, hget, (selects_iff hc' query search hget).mpr ⟨hshown', hmatches⟩,
      (hsummary hshown).trans hs⟩

/-- The rows that a query selects, the newest first. -/
def snapshot (engine : Engine) (db : Database) (query : HistoryQuery) (search : Option String) :
    List Summary :=
  descending Summary.key (selected engine db query search)

theorem keys_selected (hdb : Sized db) (query : HistoryQuery) (search : Option String) :
    ((selected engine db query search).map Summary.key).Nodup := by
  have hids : ((selected engine db query search).map (·.id)).Nodup := by
    rw [selected, map_map]
    exact hdb.keys.sublist (List.Sublist.map Prod.fst filter_sublist)
  have hkeys : ((selected engine db query search).map Summary.key).map (fun k => (ofLex k).2) =
      (selected engine db query search).map (·.id) := by
    rw [map_map]
    rfl
  exact List.Nodup.of_map _ (hkeys ▸ hids)

theorem snapshot_descends (engine : Engine) (hdb : Sized db) (query : HistoryQuery)
    (search : Option String) :
    Descends Summary.key (snapshot engine db query search) :=
  descends_descending (keys_selected hdb query search)

variable {rest shown : List Summary}

variable {query : HistoryQuery}

theorem found_behind (hc : Consistent db) (hdb : Sized db) (hc' : Consistent db') (hdb' : Sized db')
    (hsame : SameHistory db db') {last : Summary} {c : Cursor}
    (hsplit : snapshot engine db query search = shown ++ rest) (hlast : shown.getLast? = some last)
    (hkey : c.key = last.key) (limit : Option Nat) :
    found engine db' (query.from limit (some c)) search =
      rest.take ((query.from limit (some c)).size + 1) := by
  have hdescends := snapshot_descends engine hdb query search
  have hrest : (snapshot engine db query search).filter (fun s => s.key < last.key) = rest := by
    rw [hsplit] at hdescends ⊢
    exact hdescends.filter_behind hlast
  have hbehind : descending Summary.key ((selected engine db' query search).filter
      (fun s => s.key < c.key)) = rest := by
    rw [← hrest]
    refine Descends.eq_of_same_members (descends_descending ?_) (hdescends.filter _) fun s => ?_
    · exact (keys_selected hdb' query search).sublist (List.Sublist.map Summary.key filter_sublist)
    · rw [mem_descending, mem_filter, mem_filter, snapshot, mem_descending, hkey,
        mem_selected_same hc hdb hc' hdb' hsame]
  exact congrArg (List.take _) hbehind

theorem found_first (limit : Option Nat) :
    found engine db (query.from limit none) search =
      (snapshot engine db query search).take ((query.from limit none).size + 1) := by
  have hall : (selected engine db query search).filter (fun _ => true) =
      selected engine db query search := filter_true _
  exact congrArg (fun rows => (descending Summary.key rows).take _) hall

/-! ## One page of a chain -/

theorem checkQuery_ok
    (h : checkQuery engine query = .ok search) : tokens engine query.text = .ok search := by
  unfold checkQuery at h
  split at h
  · cases h
  · split at h
    · cases h
    · exact h

variable {e : StoreError}

theorem history_refused (h : checkQuery engine query = .error e) :
    history engine db query = .error e := by
  rw [history, h]
  rfl

theorem history_stale (hcheck : checkQuery engine query = .ok search)
    (hstale : query.cursor.any (staleCursor engine db query) = true) :
    history engine db query = .error .conflict := by
  simp only [history, hcheck, bind, Except.bind, hstale, if_true]

theorem take_split {α : Type} {items taken left : List α} {n : Nat}
    (h : items.take (n + 1) = taken ++ left) (htaken : taken.length ≤ n) :
    ∃ rest, items = taken ++ rest ∧ (rest = [] ↔ left = []) := by
  refine ⟨left ++ items.drop (n + 1), ?_, ?_⟩
  · rw [← append_assoc, ← h, take_append_drop]
  · rw [append_eq_nil_iff]
    constructor
    · exact fun hnil => hnil.1
    · intro hleft
      refine ⟨hleft, ?_⟩
      rw [hleft, append_nil] at h
      have hlength := congrArg List.length h
      rw [length_take] at hlength
      exact drop_eq_nil_of_le (by omega)

/-- Where a chain stands: what it has shown of the history that it began with, and what is
left. -/
structure Standing (engine : Engine) (first db : Database) (filter : HistoryQuery)
    (search : Option String) (cursor : Option Cursor) (shown rest : List Summary) : Prop where
  split : snapshot engine first filter search = shown ++ rest
  cursor : cursor = none ∧ shown = [] ∧ db = first ∨ ∃ last, shown.getLast? = some last ∧
    cursor = some (cursorAt engine first filter last)

variable {filter : HistoryQuery} {cursor : Option Cursor}

variable {first : Database}

theorem page_spec (hengine : engine.Lawful) (hfirst : Consistent first ∧ Sized first)
    (hdb : Consistent db ∧ Sized db) (hkept : Kept first db)
    (htokens : tokens engine filter.text = .ok search)
    (hstanding : Standing engine first db filter search cursor shown rest) (limit : Option Nat) :
    (∃ e, history engine db (filter.from limit cursor) = .error e ∧
      (e = .conflict ∨ checkQuery engine (filter.from limit none) = .error e)) ∨
    ∃ page rest', history engine db (filter.from limit cursor) = .ok page ∧
      rest = page.rows ++ rest' ∧ page.json.size ≤ maxPageBytes ∧
      (rest' = [] → page.cursor = none) ∧
      (rest' ≠ [] → ∃ last, page.rows.getLast? = some last ∧
        page.cursor = some (cursorAt engine first filter last)) := by
  cases hcheck : checkQuery engine (filter.from limit cursor) with
  | error e => exact .inl ⟨e, history_refused hcheck, .inr hcheck⟩
  | ok search' =>
    have hsearch : tokens engine (filter.from limit cursor).text = .ok search' :=
      checkQuery_ok hcheck
    cases htokens.symm.trans hsearch
    cases hstale : (filter.from limit cursor).cursor.any
        (staleCursor engine db (filter.from limit cursor)) with
    | true => exact .inl ⟨.conflict, history_stale hcheck hstale, .inl rfl⟩
    | false =>
      refine .inr ?_
      obtain ⟨taken, left, page, hfound, hpage, rfl, hlength, hsize, hend, hmore⟩ :=
        history_spec hengine hdb.2 hcheck hstale
      -- A cursor that is not stale is of this generation.
      have hstate : db.generation = first.generation ∧
          found engine db (filter.from limit cursor) search =
            rest.take ((filter.from limit cursor).size + 1) := by
        rcases hstanding.cursor with ⟨rfl, rfl, rfl⟩ | ⟨last, hlast, rfl⟩
        · exact ⟨rfl, (found_first limit).trans (congrArg (List.take _) hstanding.split)⟩
        · have hgeneration : db.generation = first.generation := by
            have hfresh : staleCursor engine db (filter.from limit _)
                (cursorAt engine first filter last) = false := hstale
            simp only [staleCursor, Bool.or_eq_false_iff] at hfresh
            have hsame := not_not.mp (of_decide_eq_false hfresh.1.2)
            exact (Int.ofNat.inj hsame).symm
          exact ⟨hgeneration, found_behind hfirst.1 hfirst.2 hdb.1 hdb.2 (hkept.same hgeneration)
            hstanding.split hlast rfl limit⟩
      obtain ⟨hgeneration, hstate⟩ := hstate
      obtain ⟨rest', hrest, hleft⟩ := take_split (hstate.symm.trans hfound) hlength
      refine ⟨page, rest', hpage, hrest, hsize, fun hnil => hend (hleft.mp hnil), fun hne => ?_⟩
      obtain ⟨last, hlast, hcursor⟩ := hmore (fun hnil => hne (hleft.mpr hnil))
      refine ⟨last, hlast, hcursor.trans (congrArg some ?_)⟩
      rw [cursorAt, cursorAt, hgeneration]
      rfl

/-! ## Whole chains -/

theorem call_after_kept {call : Call} (hlaw : codec.Lawful) (hbounded : codec.Bounded)
    (hdb : Consistent db ∧ Sized db) (hquiet : call.patchesArchived codec db = false) :
    (Consistent (call.after codec db) ∧ Sized (call.after codec db)) ∧
      Kept db (call.after codec db) := by
  rw [Call.after]
  cases hrun : call.run codec db with
  | error e => exact ⟨hdb, .refl db⟩
  | ok db' =>
    have hconsistent := (call_effect hlaw hdb.1 hrun).consistent hdb.1
    exact ⟨⟨hconsistent, call_sized hlaw hbounded hdb.1 hdb.2 hrun⟩,
      call_kept hlaw hdb.1 hquiet hrun⟩

theorem calls_kept (hlaw : codec.Lawful) (hbounded : codec.Bounded) (calls : List Call)
    (hdb : Consistent db ∧ Sized db) (hquiet : quietCalls codec db calls = true) :
    (Consistent (afterCalls codec db calls) ∧ Sized (afterCalls codec db calls)) ∧
      Kept db (afterCalls codec db calls) := by
  induction calls generalizing db with
  | nil => exact ⟨hdb, .refl db⟩
  | cons call calls ih =>
    obtain ⟨hcall, hcalls⟩ := Bool.and_eq_true_iff.mp hquiet
    obtain ⟨hnext, hkept⟩ := call_after_kept hlaw hbounded hdb (by simpa using hcall)
    obtain ⟨hend, hkept'⟩ := ih hnext hcalls
    exact ⟨hend, hkept.trans hkept'⟩

/-- What a chain is answered from where it stands. -/
structure Continues (engine : Engine) (filter : HistoryQuery) (limits : List (Option Nat))
    (rest : List Summary) (answers : List (Result Page)) : Prop where
  refused : ∀ e, .error e ∈ answers → e = .conflict ∨
    ∃ limit ∈ limits, checkQuery engine (filter.from limit none) = .error e
  pages : ∀ page, .ok page ∈ answers →
    page.json.size ≤ maxPageBytes ∧ (page.cursor ≠ none → page.rows ≠ [])
  exact : ∀ last, answers.getLast? = some (.ok last) → last.cursor = none → shownRows answers = rest
  bounded : answers.length ≤ rest.length + 1

variable {limits : List (Option Nat)}

theorem continues_refused (hlimit : limit ∈ limits)
    (he : e = .conflict ∨ checkQuery engine (filter.from limit none) = .error e) :
    Continues engine filter limits rest [.error e] where
  refused := by
    intro e' he'
    cases mem_singleton.mp he'
    exact he.imp id (fun hcheck => ⟨limit, hlimit, hcheck⟩)
  pages := fun page hpage => by cases mem_singleton.mp hpage
  exact := fun last hlast => by cases hlast
  bounded := Nat.le_add_left 1 _

variable {page : Page} {rest' : List Summary}

theorem continues_page (hsize : page.json.size ≤ maxPageBytes)
    (hcursor : page.cursor ≠ none → page.rows ≠ []) (hend : page.cursor = none → rest' = []) :
    Continues engine filter limits (page.rows ++ rest') [.ok page] where
  refused := fun e he => by cases mem_singleton.mp he
  pages := by
    intro page' hpage'
    cases mem_singleton.mp hpage'
    exact ⟨hsize, hcursor⟩
  exact := by
    intro last hlast hnone
    cases hlast
    rw [hend hnone]
    rfl
  bounded := Nat.le_add_left 1 _

theorem Continues.cons {limit : Option Nat} {later : List (Result Page)}
    (h : Continues engine filter limits rest' later) (hne : later ≠ [])
    (hsize : page.json.size ≤ maxPageBytes) (hrows : page.rows ≠ []) :
    Continues engine filter (limit :: limits) (page.rows ++ rest') (.ok page :: later) where
  refused := by
    intro e he
    rcases mem_cons.mp he with heq | he
    · cases heq
    · refine (h.refused e he).imp id fun hsome => ?_
      obtain ⟨limit', hlimit, hcheck⟩ := hsome
      exact ⟨limit', mem_cons_of_mem limit hlimit, hcheck⟩
  pages := by
    intro page' hpage'
    rcases mem_cons.mp hpage' with heq | hpage'
    · cases heq
      exact ⟨hsize, fun _ => hrows⟩
    · exact h.pages page' hpage'
  exact := by
    intro last hlast hnone
    rw [List.getLast?_cons_of_ne_nil hne] at hlast
    show page.rows ++ shownRows later = page.rows ++ rest'
    rw [h.exact last hlast hnone]
  bounded := by
    have hle := h.bounded
    have hpos := length_pos_iff.mpr hrows
    rw [length_cons, length_append]
    omega

variable {visits : List Visit}

theorem answers_ne_nil :
    answers engine codec filter db limit cursor visits ≠ [] := by
  cases visits with
  | nil => exact cons_ne_nil _ _
  | cons visit visits =>
    rw [answers]
    exact cons_ne_nil _ _

theorem answers_refused (h : history engine db (filter.from limit cursor) = .error e) :
    answers engine codec filter db limit cursor visits = [.error e] := by
  cases visits with
  | nil => rw [answers, h]
  | cons visit visits =>
    rw [answers, h]
    rfl

theorem chain_spec (hlaw : codec.Lawful) (hbounded : codec.Bounded) (hengine : engine.Lawful)
    (hfirst : Consistent first ∧ Sized first) (htokens : tokens engine filter.text = .ok search)
    (visits : List Visit) (limit : Option Nat) (hdb : Consistent db ∧ Sized db)
    (hkept : Kept first db) (hstanding : Standing engine first db filter search cursor shown rest)
    (hquiet : quietVisits codec db visits = true) :
    Continues engine filter (limit :: visits.map (·.limit)) rest
      (answers engine codec filter db limit cursor visits) := by
  induction visits generalizing db limit cursor shown rest with
  | nil =>
    rcases page_spec hengine hfirst hdb hkept htokens hstanding limit with
      ⟨e, hanswer, he⟩ | ⟨page, rest', hanswer, rfl, hsize, hend, hmore⟩
    · rw [answers_refused hanswer]
      exact continues_refused mem_cons_self he
    · rw [answers, hanswer]
      refine continues_page hsize (fun hcursor hnil => ?_) (fun hnone => ?_)
      · by_cases hrest : rest' = []
        · exact hcursor (hend hrest)
        · obtain ⟨last, hlast, -⟩ := hmore hrest
          rw [hnil] at hlast
          cases hlast
      · by_contra hrest
        obtain ⟨last, -, hsome⟩ := hmore hrest
        rw [hnone] at hsome
        cases hsome
  | cons visit visits ih =>
    obtain ⟨hcalls, hvisits⟩ := Bool.and_eq_true_iff.mp hquiet
    rcases page_spec hengine hfirst hdb hkept htokens hstanding limit with
      ⟨e, hanswer, he⟩ | ⟨page, rest', hanswer, rfl, hsize, hend, hmore⟩
    · rw [answers_refused hanswer]
      exact continues_refused mem_cons_self he
    · rw [answers, hanswer]
      by_cases hrest : rest' = []
      · have hnone : givenCursor (.ok page) = none := hend hrest
        simp only [hnone]
        exact continues_page hsize (fun hcursor => absurd (hend hrest) hcursor) (fun _ => hrest)
      · obtain ⟨last, hlast, hcursor⟩ := hmore hrest
        have hsome : givenCursor (.ok page) = some (cursorAt engine first filter last) := hcursor
        simp only [hsome]
        obtain ⟨hnext, hkept'⟩ := calls_kept hlaw hbounded visit.calls hdb hcalls
        have hrows : page.rows ≠ [] := by
          intro hnil
          rw [hnil] at hlast
          cases hlast
        have hstanding' : Standing engine first (afterCalls codec db visit.calls) filter search
            (some (cursorAt engine first filter last)) (shown ++ page.rows) rest' := by
          refine ⟨hstanding.split.trans (append_assoc shown page.rows rest').symm,
            .inr ⟨last, ?_, rfl⟩⟩
          rw [List.getLast?_append, hlast]
          rfl
        have hlater := ih visit.limit hnext (hkept.trans hkept') hstanding' hvisits
        exact hlater.cons answers_ne_nil hsize hrows

theorem run_sized (hlaw : codec.Lawful) (hbounded : codec.Bounded) {calls : List Call}
    (hrun : Run (Step codec) .create calls db) : Consistent db ∧ Sized db := by
  refine hrun.invariant (fun db => Consistent db ∧ Sized db) ⟨create_consistent, create_sized⟩ ?_
  intro db call db' hdb hstep
  refine ⟨(step_effect hlaw hdb.1 hstep).consistent hdb.1, ?_⟩
  unfold Step Call.after at hstep
  cases hcall : call.run codec db with
  | error e =>
    simp only [hcall] at hstep
    exact hstep ▸ hdb.2
  | ok db₁ =>
    simp only [hcall] at hstep
    exact call_sized hlaw hbounded hdb.1 hdb.2 (hstep ▸ hcall)

theorem run_afterCalls (codec : Codec) (db : Database) (calls : List Call) :
    Run (Step codec) db calls.reverse (afterCalls codec db calls) := by
  induction calls generalizing db with
  | nil => exact .start
  | cons call calls ih =>
    rw [reverse_cons]
    exact Run.append (.next .start rfl) (ih (call.after codec db))

theorem length_snapshot_le (db : Database) (query : HistoryQuery) (search : Option String) :
    (snapshot engine db query search).length ≤ db.sessions.length := by
  rw [snapshot, descending, length_insertionSort, selected, length_map]
  exact length_filter_le _ _

/-- Whatever calls run between the pages of the history, they show one state of it or a page
is refused with a conflict, unless an archived session whose record is alive is patched. -/
theorem history_pages_snapshot {engine : Engine} {codec : Codec} (hlaw : codec.Lawful)
    (hbounded : codec.Bounded) (hengine : engine.Lawful) {past : List Call} {db : Database}
    (hrun : Run (Step codec) .create past db) (filter : HistoryQuery) (limit : Option Nat)
    (visits : List Visit) (hquiet : quietVisits codec db visits = true) :
    SnapshotPaging engine db filter (limit :: visits.map (·.limit))
      (answers engine codec filter db limit none visits) := by
  have hdb := run_sized hlaw hbounded hrun
  cases htokens : tokens engine filter.text with
  | error e =>
    cases hcheck : checkQuery engine (filter.from limit none) with
    | ok search =>
      have hsearch : tokens engine (filter.from limit none).text = .ok search :=
        checkQuery_ok hcheck
      cases htokens.symm.trans hsearch
    | error e' =>
      rw [answers_refused (history_refused hcheck)]
      refine ⟨fun e he => ?_, fun page hpage => ?_, fun last hlast => ?_, Nat.le_add_left 1 _⟩
      · cases mem_singleton.mp he
        exact .inr ⟨limit, mem_cons_self, hcheck⟩
      · cases mem_singleton.mp hpage
      · cases hlast
  | ok search =>
    have hstanding : Standing engine db db filter search none []
        (snapshot engine db filter search) := ⟨rfl, .inl ⟨rfl, rfl, rfl⟩⟩
    have h := chain_spec hlaw hbounded hengine hdb htokens visits limit hdb (.refl db) hstanding
      hquiet
    refine ⟨h.refused, h.pages, fun last hlast hnone => ?_, ?_⟩
    · rw [h.exact last hlast hnone]
      refine ⟨⟨search, htokens, fun s => ?_⟩, snapshot_descends engine hdb.2 filter search⟩
      rw [snapshot, mem_descending, mem_selected hdb.2]
    · exact Nat.le_trans h.bounded (Nat.succ_le_succ (length_snapshot_le db filter search))

/-! ## An archived session that is live again -/

namespace HistorySample

def day1 : String := "2026-01-01T00:00:00Z"
def day2 : String := "2026-01-02T00:00:00Z"
def day3 : String := "2026-01-03T00:00:00Z"

def closedAt (id time : String) : Json :=
  .object [("id", .string id), ("label", .string "Fix the parser"),
    ("workspace", .string "/repo"), ("task", .string ""), ("cwd", .string "/repo"),
    ("status", .string "ended"), ("lifecycle", .string "dead"),
    ("lifecyclePhase", .string "ended"), ("createdAt", .string day1),
    ("lastActivity", .string time), ("metadataSource", .string "process"),
    ("metadataConfidence", .number "1.0")]

/-- The two digests that the sample asks for, and zeros for other bytes. -/
def sha256Hex (bytes : List UInt8) : String :=
  if bytes = JsonText.encode "/repo".toList then
    "816fc349d3faebf805d1bed70fce7e14754cad5251c77dda31c414ee961a0bdd"
  else if bytes = JsonText.encode "[\"archived\",null,null,null,\"\"]".toList then
    "a6a18f9027a905746a82579139679412fcb5ea056e2161112b60ac44e51353eb"
  else "0000000000000000000000000000000000000000000000000000000000000000"

def searchless : Engine where
  epoch := "3f0b8c1e-6a52-4d0e-9b7a-2f4c5d6e7f80"
  workspace := "/repo"
  sha256Hex := sha256Hex
  terms _ := []
  matching _ _ := false

/-- No sample asks for an age or for a letter. -/
def ageless : Env := ⟨fun _ => none, fun _ => none, fun c => c.isAlpha⟩

/-- Two sessions are archived, and the older one runs again. -/
def opened : List Call :=
  [.insert (closedAt "s1" day1), .insert (closedAt "s2" day2),
    .organize "s1" day1 "0" (some .archived), .organize "s2" day1 "0" (some .archived),
    .mutateInternal ageless "s1" day1 none none
      (.lifecycle (.transition "running" true false (some "active") none none day1))
      (true, true) day1]

def tables : Database := afterCalls sampleCodec .create opened

def archived : HistoryQuery := ⟨some "archived", none, none, none, "", none, none⟩

/-- The agent of the running session reports a summary. -/
def report : Call :=
  .patch "s1" (some ⟨1, ⟨none, some ⟨none, .set "Parser fixed", .omitted, .omitted⟩⟩,
    by decide +kernel⟩) { AgentPatches.sampleSurroundings with activityNow := day3 } day3

theorem plain_of_all {text : String}
    (h : text.toList.all (fun c => decide (JsonText.Plain c)) = true) :
    ∀ c ∈ text.toList, JsonText.Plain c :=
  fun c hc => of_decide_eq_true (all_eq_true.mp h c hc)

theorem searchless_lawful : searchless.Lawful := by
  refine ⟨⟨by decide +kernel, plain_of_all (by decide +kernel)⟩, fun bytes => ?_⟩
  show (sha256Hex bytes).toList.length = 64 ∧ ∀ c ∈ (sha256Hex bytes).toList, JsonText.Plain c
  unfold sha256Hex
  split
  · exact ⟨by decide +kernel, plain_of_all (by decide +kernel)⟩
  · split
    · exact ⟨by decide +kernel, plain_of_all (by decide +kernel)⟩
    · exact ⟨by decide +kernel, plain_of_all (by decide +kernel)⟩

theorem sampleCodec_bounded : sampleCodec.Bounded := by
  refine ⟨?_, ?_⟩
  · intro d r h
    obtain ⟨m, -, hread⟩ := Option.bind_eq_some_iff.mp h
    unfold sampleRead at hread
    simp only [bind, Option.bind_eq_some_iff] at hread
    obtain ⟨id, -, createdAt, -, status, -, label, -, workspace, -, task, -, cwd, -,
      lastActivity, -, metadataSource, -, revision, hrevision, hr⟩ := hread
    cases hr
    show revision < u64Limit
    unfold sampleRevision at hrevision
    split at hrevision
    · cases hrevision
      decide
    · dsimp only at hrevision
      split at hrevision
      · rename_i hlimit
        cases hrevision
        exact hlimit.2
      · cases hrevision
  · intro text n h
    have hmicros : sampleMicros text = some n := h
    unfold sampleMicros at hmicros
    split at hmicros
    · cases hmicros
      decide
    · split at hmicros
      · cases hmicros
        decide
      · split at hmicros
        · cases hmicros
          decide
        · cases hmicros

/-- The user takes a session back from the archive. -/
def unarchive : Call := .organize "s2" day1 "1" (some .closed)

/-- The pages of the archived sessions, one at a time. The second follows the first, and is
refused where the user has taken a session back in between. -/
theorem archived_pages_shown :
    (SnapshotPaging searchless tables archived [some 1, some 1]
        (answers searchless sampleCodec archived tables (some 1) none [⟨[], some 1⟩]) ∧
      (answers searchless sampleCodec archived tables (some 1) none
        [⟨[], some 1⟩]).map (·.toOption.isSome) = [true, true]) ∧
    SnapshotPaging searchless tables archived [some 1, some 1]
        (answers searchless sampleCodec archived tables (some 1) none [⟨[unarchive], some 1⟩]) ∧
      (answers searchless sampleCodec archived tables (some 1) none
        [⟨[unarchive], some 1⟩]).map (·.toOption.isSome) = [true, false] :=
  have shown (visits : List Visit) (hquiet : quietVisits sampleCodec tables visits = true) :=
    history_pages_snapshot sampleCodec_lawful sampleCodec_bounded searchless_lawful
      (run_afterCalls sampleCodec .create opened) archived (some 1) visits hquiet
  ⟨⟨shown [⟨[], some 1⟩] rfl, by decide +kernel⟩,
    shown [⟨[unarchive], some 1⟩] (by decide +kernel), by decide +kernel⟩

/-- The agent reports between the two pages. -/
def pages : List (Result Page) :=
  answers searchless sampleCodec archived tables (some 1) none [⟨[report], some 1⟩]

/-- The session that the report moves to the front is on no page. -/
theorem archived_session_missed : ¬ ∀ (engine : Engine) (codec : Codec), codec.Lawful →
    codec.Bounded → engine.Lawful → ∀ (past : List Call) (db : Database),
      Run (Step codec) .create past db →
      ∀ (filter : HistoryQuery) (limit : Option Nat) (visits : List Visit),
        SnapshotPaging engine db filter (limit :: visits.map (·.limit))
          (answers engine codec filter db limit none visits) := by
  intro hclaim
  have h : SnapshotPaging searchless tables archived [some 1, some 1] pages :=
    hclaim searchless sampleCodec sampleCodec_lawful sampleCodec_bounded searchless_lawful _ _
      (run_afterCalls sampleCodec .create opened) archived (some 1) [⟨[report], some 1⟩]
  -- The chain ends, none of its rows is of the session, and the first page could show it.
  have hrun : ((pages.getLast?.bind Except.toOption).any (fun page => page.cursor.isNone) &&
      ((shownRows pages).all (fun s => s.id ≠ "s1") && (tables.sessions.get "s1").any
        (fun row => selects searchless tables archived none "s1" row))) = true := by
    decide +kernel
  obtain ⟨hended, hrest⟩ := Bool.and_eq_true_iff.mp hrun
  obtain ⟨hmissed, hstored⟩ := Bool.and_eq_true_iff.mp hrest
  obtain ⟨last, hlast, hnone⟩ := (Option.any_eq_true _ _).mp hended
  obtain ⟨answer, hanswer, hpage⟩ := Option.bind_eq_some_iff.mp hlast
  have hok : answer = .ok last := by
    cases answer with
    | error e => cases hpage
    | ok page =>
      cases hpage
      rfl
  obtain ⟨⟨search, htokens, hrows⟩, -⟩ :=
    h.exact last (hok ▸ hanswer) (Option.isNone_iff_eq_none.mp hnone)
  have hsearch : tokens searchless archived.text = .ok none := by
    decide +kernel
  cases hsearch.symm.trans htokens
  obtain ⟨row, hget, hselects⟩ := (Option.any_eq_true _ _).mp hstored
  have hshown := (hrows (summaryOf tables "s1" row)).mpr ⟨"s1", row, hget, hselects, rfl⟩
  exact of_decide_eq_true (all_eq_true.mp hmissed _ hshown) rfl

end HistorySample

end Orkworksd.SessionStore
