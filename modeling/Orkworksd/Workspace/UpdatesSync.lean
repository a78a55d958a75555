import Mathlib.Data.List.Perm.Basic
import Mathlib.Data.List.Perm.Subperm
import Orkworksd.Workspace.Updates

/- The update stream keeps client and server equal. `delta_applied` is the meeting point
   of the two languages: the client's decoder turns the server's old list into its new
   one, with the order sent or, where the ids did not move, without it.

   What is proved:
     1. `stream_in_step`: the client accepts every snapshot, delta and invalidation, and
        after each it holds the server's list and sequence number; and it rejects, with
        its state unchanged, every message of the stream but the next one and every
        message of another workspace, instance or generation.
     2. `heartbeat_not_applied`: a heartbeat is not a message of that kind. -/
namespace Orkworksd.Workspace
open Orkworksd.Lib List OrderedMap

variable {client : Client} {rows next old : List Row} {message : Message} {n : Nat}

variable {last : Client} {map : OrderedMap String Row} {removed : List String}

/-! ## Rows by id -/

/-- A session list the client accepts: its rows are well typed and their ids, which
are not empty, distinct. -/
def ValidRows (rows : List Row) : Prop := checkRows (.value rows) = some rows

theorem validRows_iff :
    ValidRows rows ↔ (∀ row ∈ rows, row.wellTyped = true) ∧ (rows.map Row.idText).Nodup := by
  unfold ValidRows checkRows
  dsimp only
  split
  · rename_i h
    rw [Bool.and_eq_true, all_eq_true, decide_eq_true_eq] at h
    exact ⟨fun _ => h, fun _ => rfl⟩
  · rename_i h
    rw [Bool.and_eq_true, all_eq_true, decide_eq_true_eq] at h
    exact ⟨fun hnone => (by cases hnone), fun hvalid => absurd hvalid h⟩

theorem id_of_wellTyped {row : Row} (h : row.wellTyped = true) : row.id = .value row.idText := by
  simp only [Row.wellTyped, Bool.and_eq_true] at h
  obtain ⟨a, ha⟩ := Option.isSome_iff_exists.mp h.1.1.1.1.1.1.1.1
  unfold Row.idText
  rw [ha]
  cases hid : row.id with
  | absent => rw [hid] at ha; cases ha
  | wrong => rw [hid] at ha; cases ha
  | value b =>
    rw [hid] at ha
    cases ha
    rfl

theorem idText_ne_empty {row : Row} (h : row.wellTyped = true) : row.idText ≠ "" := by
  simp only [Row.wellTyped, Bool.and_eq_true, decide_eq_true_eq] at h
  exact h.2

/-- The rows of a list as a map from their ids. -/
def byId (rows : List Row) : OrderedMap String Row := rows.map (fun row => (row.idText, row))

theorem keys_byId (rows : List Row) : OrderedMap.keys (byId rows) = rows.map Row.idText := by
  unfold OrderedMap.keys byId
  rw [map_map]
  rfl

theorem byId_cons (row : Row) (rows : List Row) : byId (row :: rows) = (row.idText, row) :: byId rows :=
  rfl

theorem get_byId_iff (hnd : (rows.map Row.idText).Nodup) {k : String} {row : Row} :
    OrderedMap.get (byId rows) k = some row ↔ row ∈ rows ∧ row.idText = k := by
  induction rows with
  | nil => simp [byId, OrderedMap.get]
  | cons r rows ih =>
    rw [map_cons, nodup_cons] at hnd
    rw [byId_cons, OrderedMap.get, mem_cons]
    split
    · rename_i h
      constructor
      · rintro ⟨⟩
        exact ⟨.inl rfl, h⟩
      · rintro ⟨rfl | hmem, hk⟩
        · rfl
        · exact absurd (mem_map.mpr ⟨row, hmem, hk.trans h.symm⟩) hnd.1
    · rename_i h
      rw [ih hnd.2]
      constructor
      · rintro ⟨hmem, hk⟩
        exact ⟨.inr hmem, hk⟩
      · rintro ⟨rfl | hmem, hk⟩
        · exact absurd hk h
        · exact ⟨hmem, hk⟩

theorem indexed_eq (h : ValidRows rows) (k : String) :
    indexed rows k = OrderedMap.get (byId rows) k := by
  obtain ⟨htyped, hnd⟩ := validRows_iff.mp h
  refine Option.ext fun row => ?_
  rw [get_byId_iff hnd]
  unfold indexed
  constructor
  · intro hfind
    have hmem := mem_reverse.mp (mem_of_find?_eq_some hfind)
    have hid := List.find?_some hfind
    rw [decide_eq_true_eq, id_of_wellTyped (htyped row hmem)] at hid
    exact ⟨hmem, Field.value.inj hid⟩
  · rintro ⟨hmem, rfl⟩
    cases hfind : rows.reverse.find? (fun r => r.id = .value row.idText) with
    | none =>
      have hnot := List.find?_eq_none.mp hfind row (mem_reverse.mpr hmem)
      rw [decide_eq_true_eq, id_of_wellTyped (htyped row hmem)] at hnot
      exact absurd rfl hnot
    | some found =>
      have hfound := mem_reverse.mp (mem_of_find?_eq_some hfind)
      have hid := List.find?_some hfind
      rw [decide_eq_true_eq, id_of_wellTyped (htyped found hfound)] at hid
      have hsame := inj_on_of_nodup_map hnd hfound hmem (Field.value.inj hid)
      rw [hsame]

/-! ## The client's map -/

theorem foldl_set_byId (rows : List Row) (map : OrderedMap String Row)
    (hnd : (OrderedMap.keys map ++ rows.map Row.idText).Nodup) :
    rows.foldl (fun map row => OrderedMap.set map row.idText row) map = map ++ byId rows := by
  induction rows generalizing map with
  | nil => simp [byId]
  | cons row rows ih =>
    rw [map_cons] at hnd
    have hnew : row.idText ∉ OrderedMap.keys map := by
      intro hmem
      exact (nodup_append.mp hnd).2.2 _ hmem _ mem_cons_self rfl
    have hset : OrderedMap.set map row.idText row = map ++ [(row.idText, row)] := by
      clear ih hnd
      induction map with
      | nil => rfl
      | cons p map ih =>
        have hne : p.1 ≠ row.idText := fun h => hnew (h ▸ mem_cons_self)
        have hrest : row.idText ∉ OrderedMap.keys map := fun h => hnew (mem_cons_of_mem p.1 h)
        rw [OrderedMap.set, if_neg hne, ih hrest]
        rfl
    rw [foldl_cons, hset, ih, byId_cons, append_assoc]
    · rfl
    · unfold OrderedMap.keys at hnd ⊢
      rw [map_append, append_assoc]
      exact hnd

theorem foldlM_delete (hnd : (OrderedMap.keys map).Nodup) (hremoved : removed.Nodup)
    (hsub : ∀ id ∈ removed, id ∈ OrderedMap.keys map) :
    ∃ kept, removed.foldlM OrderedMap.delete map = some kept ∧ (OrderedMap.keys kept).Nodup ∧
      ∀ k, OrderedMap.get kept k = if k ∈ removed then none else OrderedMap.get map k := by
  induction removed generalizing map with
  | nil => exact ⟨map, rfl, hnd, fun k => by simp⟩
  | cons id removed ih =>
    rw [nodup_cons] at hremoved
    obtain ⟨after, hdelete, hkeys, hget⟩ :=
      delete_of_mem hnd (hsub id mem_cons_self)
    have hnd' : (OrderedMap.keys after).Nodup := by
      rw [hkeys]
      exact hnd.filter _
    have hsub' : ∀ j ∈ removed, j ∈ OrderedMap.keys after := by
      intro j hj
      rw [hkeys, mem_filter]
      refine ⟨hsub j (mem_cons_of_mem id hj), ?_⟩
      simpa using fun h : j = id => hremoved.1 (h ▸ hj)
    obtain ⟨kept, hkept, hnodup, hall⟩ := ih hnd' hremoved.2 hsub'
    refine ⟨kept, ?_, hnodup, ?_⟩
    · rw [foldlM_cons, hdelete]
      exact hkept
    · intro k
      rw [hall, hget]
      by_cases hk : k ∈ removed
      · rw [if_pos hk, if_pos (mem_cons_of_mem id hk)]
      · rw [if_neg hk]
        by_cases hid : id = k
        · rw [if_pos hid, if_pos (hid ▸ mem_cons_self)]
        · rw [if_neg hid, if_neg (by simp [hk, Ne.symm hid])]

theorem foldlM_set (hnd : (OrderedMap.keys map).Nodup) {changed : List Row}
    (hchanged : ∀ row ∈ changed, row.idText ∉ removed) (hids : (changed.map Row.idText).Nodup) :
    ∃ next, changed.foldlM (fun map (row : Row) =>
        if removed.contains row.idText then none else some (OrderedMap.set map row.idText row)) map =
          some next ∧ (OrderedMap.keys next).Nodup ∧
      (∀ k, OrderedMap.get next k = (OrderedMap.get (byId changed) k).or (OrderedMap.get map k)) ∧
      ((∀ row ∈ changed, row.idText ∈ OrderedMap.keys map) →
        OrderedMap.keys next = OrderedMap.keys map) := by
  induction changed generalizing map with
  | nil => exact ⟨map, rfl, hnd, fun k => rfl, fun _ => rfl⟩
  | cons row changed ih =>
    rw [map_cons, nodup_cons] at hids
    obtain ⟨next, hnext, hnodup, hget, hkeys⟩ :=
      @ih (OrderedMap.set map row.idText row) (nodup_keys_set hnd)
        (fun r hr => hchanged r (mem_cons_of_mem row hr)) hids.2
    refine ⟨next, ?_, hnodup, ?_, ?_⟩
    · rw [foldlM_cons, if_neg (by simpa using hchanged row mem_cons_self)]
      exact hnext
    · intro k
      rw [hget, get_set, byId_cons, OrderedMap.get]
      split
      · rename_i hk
        have hnone : OrderedMap.get (byId changed) k = none := by
          rw [get_eq_none_iff, keys_byId, ← hk]
          exact hids.1
        rw [hnone]
        rfl
      · rfl
    · intro hpresent
      have hrow := hpresent row mem_cons_self
      rw [hkeys, keys_set_of_mem hrow]
      intro r hr
      rw [keys_set_of_mem hrow]
      exact hpresent r (mem_cons_of_mem row hr)

/-! ## The delta -/

theorem ValidRows.filter (h : ValidRows rows) (p : Row → Bool) :
    ValidRows (rows.filter p) := by
  rw [validRows_iff] at h ⊢
  refine ⟨fun row hrow => h.1 row (mem_of_mem_filter hrow), ?_⟩
  exact h.2.sublist (filter_sublist.map Row.idText)

theorem checkIds_of_rows (h : ValidRows rows) :
    checkIds (.value (rows.map Row.id)) = some (rows.map Row.idText) := by
  obtain ⟨htyped, hnd⟩ := validRows_iff.mp h
  have htexts : (rows.map Row.id).mapM Field.toOption = some (rows.map Row.idText) := by
    clear hnd h
    induction rows with
    | nil => rfl
    | cons row rows ih =>
      rw [map_cons, mapM_cons, id_of_wellTyped (htyped row mem_cons_self),
        ih (fun r hr => htyped r (mem_cons_of_mem row hr))]
      rfl
  unfold checkIds
  dsimp only
  rw [htexts]
  dsimp only
  rw [if_pos]
  rw [Bool.and_eq_true, all_eq_true, decide_eq_true_eq]
  refine ⟨?_, hnd⟩
  intro id hid
  obtain ⟨row, hrow, rfl⟩ := mem_map.mp hid
  simpa using idText_ne_empty (htyped row hrow)

/-- The rows a delta resends. -/
def resent (old next : List Row) : List Row :=
  next.filter (fun row => indexed old row.idText ≠ some row)

/-- The rows a delta withdraws. -/
def withdrawn (old next : List Row) : List Row :=
  old.filter (fun row => (indexed next row.idText).isNone)

theorem mem_withdrawn (hnext : ValidRows next) {k : String} :
    k ∈ (withdrawn old next).map Row.idText ↔
      k ∈ old.map Row.idText ∧ OrderedMap.get (byId next) k = none := by
  rw [mem_map, mem_map]
  constructor
  · rintro ⟨row, hrow, rfl⟩
    obtain ⟨hmem, hgone⟩ := mem_filter.mp hrow
    rw [indexed_eq hnext, Option.isNone_iff_eq_none] at hgone
    exact ⟨⟨row, hmem, rfl⟩, hgone⟩
  · rintro ⟨⟨row, hmem, rfl⟩, hgone⟩
    refine ⟨row, mem_filter.mpr ⟨hmem, ?_⟩, rfl⟩
    rw [indexed_eq hnext, Option.isNone_iff_eq_none]
    exact hgone

theorem get_delta (hold : ValidRows old) (hnext : ValidRows next) (k : String) :
    (OrderedMap.get (byId (resent old next)) k).or
      (if k ∈ (withdrawn old next).map Row.idText then none else OrderedMap.get (byId old) k) =
      OrderedMap.get (byId next) k := by
  have hndNext := (validRows_iff.mp hnext).2
  have hndResent : ((resent old next).map Row.idText).Nodup :=
    (validRows_iff.mp (hnext.filter _)).2
  cases hfind : OrderedMap.get (byId next) k with
  | none =>
    have hresent : OrderedMap.get (byId (resent old next)) k = none := by
      rw [Option.eq_none_iff_forall_ne_some]
      intro row hrow
      obtain ⟨hmem, hk⟩ := (get_byId_iff hndResent).mp hrow
      have hsome := (get_byId_iff hndNext).mpr ⟨mem_of_mem_filter hmem, hk⟩
      rw [hfind] at hsome
      cases hsome
    rw [hresent, Option.none_or]
    split
    · rfl
    · rename_i hkept
      rw [mem_withdrawn hnext] at hkept
      rw [get_eq_none_iff, keys_byId]
      exact fun hmem => hkept ⟨hmem, hfind⟩
  | some row =>
    obtain ⟨hmem, hk⟩ := (get_byId_iff hndNext).mp hfind
    have hkept : k ∉ (withdrawn old next).map Row.idText := by
      rw [mem_withdrawn hnext, hfind]
      rintro ⟨-, hgone⟩
      cases hgone
    rw [if_neg hkept]
    by_cases hsame : indexed old row.idText = some row
    · -- the client has this row already
      have hresent : OrderedMap.get (byId (resent old next)) k = none := by
        rw [Option.eq_none_iff_forall_ne_some]
        intro other hother
        obtain ⟨hin, hkey⟩ := (get_byId_iff hndResent).mp hother
        obtain ⟨hin, hdiff⟩ := mem_filter.mp hin
        have heq : other = row := inj_on_of_nodup_map hndNext hin hmem (hkey.trans hk.symm)
        rw [heq, decide_eq_true_eq] at hdiff
        exact hdiff hsame
      rw [hresent, Option.none_or, ← hk, ← indexed_eq hold]
      exact hsame
    · have hresent : OrderedMap.get (byId (resent old next)) k = some row := by
        rw [get_byId_iff hndResent]
        exact ⟨mem_filter.mpr ⟨hmem, by simpa using hsame⟩, hk⟩
      rw [hresent, Option.some_or]

theorem delta_applied (hold : ValidRows old) (hnext : ValidRows next)
    {delta : SessionDelta} (hdelta : sessionDelta old next = some delta)
    (hbaseline : client.baseline = old)
    (hchanged : message.changed = .value delta.changed)
    (hremoved : message.removed = .value delta.removed)
    (horder : message.order = match delta.order with
      | some order => .value order
      | none => .absent) :
    client.delta message = some next := by
  have hndOld := (validRows_iff.mp hold).2
  have hndNext := (validRows_iff.mp hnext).2
  have hshape : delta.changed = resent old next ∧ delta.removed = (withdrawn old next).map Row.id ∧
      delta.order = if old.map Row.id ≠ next.map Row.id then some (next.map Row.id) else none := by
    unfold sessionDelta at hdelta
    dsimp only at hdelta
    split at hdelta
    · cases hdelta
    · cases hdelta
      exact ⟨rfl, rfl, rfl⟩
  obtain ⟨hresent, hwithdrawn, hmoved⟩ := hshape
  have hstart : client.baseline.foldl (fun map row => OrderedMap.set map row.idText row) [] = byId old := by
    rw [hbaseline, foldl_set_byId old [] (by simpa [OrderedMap.keys] using hndOld)]
    rfl
  have hndStart : (OrderedMap.keys (byId old)).Nodup := by
    rw [keys_byId]
    exact hndOld
  have hgone : ValidRows (withdrawn old next) := hold.filter _
  obtain ⟨kept, hkept, hndKept, hgetKept⟩ := foldlM_delete hndStart (validRows_iff.mp hgone).2
    (fun id hid => by rw [keys_byId]; exact ((mem_withdrawn hnext).mp hid).1)
  have hfresh : ∀ row ∈ resent old next, row.idText ∉ (withdrawn old next).map Row.idText := by
    intro row hrow hgone
    have hfound := (get_byId_iff hndNext).mpr ⟨mem_of_mem_filter hrow, rfl⟩
    rw [((mem_withdrawn hnext).mp hgone).2] at hfound
    cases hfound
  have hrowsOk : ValidRows (resent old next) := hnext.filter _
  obtain ⟨final, hfinal, hndFinal, hgetFinal, hkeysFinal⟩ := foldlM_set hndKept hfresh
    (validRows_iff.mp hrowsOk).2
  have hget : ∀ k, OrderedMap.get final k = OrderedMap.get (byId next) k := by
    intro k
    rw [hgetFinal, hgetKept, get_delta hold hnext]
  have hmem : ∀ k, k ∈ OrderedMap.keys final ↔ k ∈ next.map Row.idText := by
    intro k
    rw [← keys_byId, ← get_isSome_iff, ← get_isSome_iff, hget]
  have hlength : (next.map Row.idText).length = final.length := by
    have hperm := (perm_ext_iff_of_nodup hndFinal hndNext).mpr hmem
    rw [← hperm.length_eq, OrderedMap.keys, length_map]
  have hrows : (next.map Row.idText).filterMap (OrderedMap.get final) = next := by
    have hsame : OrderedMap.get final = OrderedMap.get (byId next) := funext hget
    rw [hsame, ← keys_byId, filterMap_get_keys (by rw [keys_byId]; exact hndNext)]
    unfold byId
    rw [map_map]
    exact map_id next
  -- the order is the one sent, or the client's own where the ids did not move
  have hids : deltaOrder message final = some (next.map Row.idText) := by
    unfold deltaOrder
    rw [horder, hmoved]
    by_cases hsame : old.map Row.id = next.map Row.id
    · rw [if_neg (not_not.mpr hsame)]
      dsimp only
      rw [if_pos rfl]
      have htexts : old.map Row.idText = next.map Row.idText := by
        have := congrArg (List.map (fun id : Field String => id.toOption.getD "")) hsame
        rw [map_map, map_map] at this
        exact this
      have hnone : (withdrawn old next).map Row.idText = [] := by
        rw [eq_nil_iff_forall_not_mem]
        intro k hk
        obtain ⟨hin, hgone⟩ := (mem_withdrawn hnext).mp hk
        rw [get_eq_none_iff, keys_byId, ← htexts] at hgone
        exact hgone hin
      have hkeys : OrderedMap.keys kept = next.map Row.idText := by
        rw [hnone] at hkept
        cases hkept
        rw [keys_byId, htexts]
      rw [hkeysFinal (fun row hrow => by
        rw [hkeys]
        exact mem_map_of_mem (mem_of_mem_filter hrow)), hkeys]
    · rw [if_pos hsame]
      dsimp only
      rw [if_neg (by simp), checkIds_of_rows hnext]
  unfold Client.delta
  rw [hchanged, hremoved, hresent, hwithdrawn]
  rw [show checkRows (.value (resent old next)) = some (resent old next) from hrowsOk, checkIds_of_rows hgone]
  simp only [Option.bind_eq_bind, Option.bind_some]
  rw [hstart]
  change (List.foldlM OrderedMap.delete (byId old) ((withdrawn old next).map Row.idText)).bind _ = _
  rw [hkept]
  simp only [Option.bind_some]
  rw [hfinal]
  simp only [Option.bind_some]
  rw [hids]
  simp only [Option.bind_some]
  rw [if_neg, hrows]
  rw [Bool.or_eq_true, decide_eq_true_eq, not_or, not_not, any_eq_true]
  refine ⟨hlength, ?_⟩
  rintro ⟨k, hk, hnone⟩
  rw [Option.isNone_iff_eq_none, get_eq_none_iff, hmem] at hnone
  exact hnone hk

theorem eq_of_sessionDelta_none (hold : ValidRows old) (hnext : ValidRows next)
    (h : sessionDelta old next = none) : next = old := by
  have hndOld := (validRows_iff.mp hold).2
  have hndNext := (validRows_iff.mp hnext).2
  unfold sessionDelta at h
  dsimp only at h
  split at h
  · rename_i hquiet
    obtain ⟨hchanged, hremoved, hsame⟩ := hquiet
    rw [List.isEmpty_iff] at hchanged hremoved
    have hresent : resent old next = [] := hchanged
    have hwithdrawn : withdrawn old next = [] := map_eq_nil_iff.mp hremoved
    have hget : OrderedMap.get (byId old) = OrderedMap.get (byId next) := by
      funext k
      have hdelta := get_delta hold hnext k
      rw [hresent, hwithdrawn, map_nil, if_neg not_mem_nil] at hdelta
      exact hdelta
    have hids : old.map Row.idText = next.map Row.idText := by
      have := congrArg (List.map (fun id : Field String => id.toOption.getD "")) (not_not.mp hsame)
      rw [map_map, map_map] at this
      exact this
    have hrows : ∀ rows : List Row, (rows.map Row.idText).Nodup →
        rows = (rows.map Row.idText).filterMap (OrderedMap.get (byId rows)) := by
      intro rows hnd
      rw [← keys_byId, filterMap_get_keys (by rw [keys_byId]; exact hnd)]
      unfold byId
      rw [map_map]
      exact (map_id rows).symm
    rw [hrows next hndNext, hrows old hndOld, hids, hget]
  · cases h

/-! ## The client in step with the server -/

/-- The client holds the server's list and sequence number. -/
structure InStep (sub : Subscription) (client : Client) (server : Server) : Prop where
  workspace : client.workspacePath = sub.workspace
  identity : client.identity = some (sub.instanceId, (sub.generation : Int))
  sequence : client.sequence = server.sequence
  baseline : server.baseline = some client.baseline
  valid : ValidRows client.baseline

/-- A message that moves the stream: neither a heartbeat, which the socket handler
keeps to itself, nor the notice that ends the connection. -/
def Sent.stateful (sent : Sent) : Bool :=
  sent.message.type ≠ .value "heartbeat" && sent.message.type ≠ .value "unavailable"

/-- The client accepts every stateful message and is in step with the server after
each. -/
inductive Follows (sub : Subscription) : Client → List Sent → Client → Prop where
  | done (client : Client) : Follows sub client [] client
  | skipped {client last : Client} {sent : Sent} {rest : List Sent} :
      sent.stateful = false → Follows sub client rest last → Follows sub client (sent :: rest) last
  | accepted {client next last : Client} {sent : Sent} {rest : List Sent} {result : Result} :
      sent.stateful = true → client.apply sent.message = (next, some result) →
      InStep sub next sent.server → Follows sub next rest last →
      Follows sub client (sent :: rest) last

variable {second first : List Sent}

theorem Follows.append {sub : Subscription} {middle : Client} (h : Follows sub client first middle)
    (k : Follows sub middle second last) :
    Follows sub client (first ++ second) last := by
  induction h with
  | done => exact k
  | skipped hplain _ ih => exact .skipped hplain (ih k)
  | accepted hstate happly hstep _ ih => exact .accepted hstate happly hstep (ih k)

@[simp] theorem stamp_type (sub : Subscription) (message : Message) (base : Option Nat) (sequence : Nat) :
    (sub.stamp message base sequence).type = message.type := rfl

@[simp] theorem snapshotMessage_type (rows : List Row) :
    (snapshotMessage rows).type = .value "snapshot" := rfl

@[simp] theorem deltaMessage_type (delta : SessionDelta) :
    (deltaMessage delta).type = .value "sessions-delta" := rfl

@[simp] theorem bare_type (type : String) : (Message.bare type).type = .value type := rfl

/-- A counter that JavaScript can hold. -/
def Safe (n : Nat) : Prop := n ≤ 2 ^ 53 - 1

instance (n : Nat) : Decidable (Safe n) := inferInstanceAs (Decidable (n ≤ 2 ^ 53 - 1))

theorem safeCount_value (h : Safe n) : safeCount (.value (n : Int)) = some (n : Int) := by
  unfold safeCount
  unfold Safe at h
  dsimp only
  rw [if_pos]
  omega

theorem header_stamp {sub : Subscription} (hworkspace : client.workspacePath = sub.workspace)
    (hgeneration : Safe sub.generation) (message : Message) (base : Option Nat) {sequence : Nat}
    (hsequence : Safe sequence) :
    client.header (sub.stamp message base sequence) =
      some (sub.instanceId, (sub.generation : Int), (sequence : Int)) := by
  unfold Client.header Subscription.stamp
  dsimp only
  rw [if_pos ⟨rfl, by rw [hworkspace]⟩, safeCount_value hgeneration, safeCount_value hsequence]

/-- Where the client stands before a pass: fresh, as the server is, or in step. -/
def Ready (sub : Subscription) (client : Client) (server : Server) : Prop :=
  (client = .new sub.workspace ∧ server.baseline = none ∧ server.sequence = 0) ∨
    InStep sub client server

theorem apply_stamp {sub : Subscription} {server : Server} (h : InStep sub client server)
    (hgeneration : Safe sub.generation) (hsafe : Safe (server.sequence + 1))
    (htype : message.type ≠ .value "snapshot") :
    client.apply (sub.stamp message (some server.sequence) (server.sequence + 1)) =
      if message.type = .value "recommendations-invalidated" then
        ({ client with sequence := client.sequence + 1 }, some ⟨none, true⟩)
      else if message.type = .value "sessions-delta" then
        match client.delta (sub.stamp message (some server.sequence) (server.sequence + 1)) with
        | some rows =>
          ({ client with baseline := rows, sequence := client.sequence + 1 }, some ⟨some rows, false⟩)
        | none => (client, none)
      else (client, none) := by
  have hcursor : ¬ (client.identity ≠ some (sub.instanceId, (sub.generation : Int)) ∨
      (sub.stamp message (some server.sequence) (server.sequence + 1)).base ≠ .value client.sequence ∨
      ((server.sequence + 1 : Nat) : Int) ≠ client.sequence + 1) := by
    rw [h.identity, h.sequence]
    simp [Subscription.stamp]
  unfold Client.apply
  rw [header_stamp h.workspace hgeneration _ _ hsafe]
  dsimp only
  rw [if_neg (show (sub.stamp message (some server.sequence) (server.sequence + 1)).type ≠ _ from htype),
    if_neg hcursor]
  rfl

theorem sendSessions_follows {sub : Subscription} (hgeneration : Safe sub.generation)
    {server : Server} (h : Ready sub client server) (hrows : ValidRows rows)
    (hsafe : ∀ sent ∈ (server.sendSessions sub rows).2, Safe sent.server.sequence) :
    ∃ next, Follows sub client (server.sendSessions sub rows).2 next ∧
      InStep sub next (server.sendSessions sub rows).1 := by
  unfold Server.sendSessions at hsafe ⊢
  rcases h with ⟨rfl, hnone, hzero⟩ | h
  · rw [hnone] at hsafe ⊢
    have hsafe : Safe server.sequence := hsafe _ (mem_singleton_self _)
    have hstep : InStep sub ⟨sub.workspace, some (sub.instanceId, sub.generation), server.sequence, rows⟩
        { server with baseline := some rows } := ⟨rfl, rfl, rfl, rfl, hrows⟩
    have happly : (Client.new sub.workspace).apply
        (sub.stamp (snapshotMessage rows) none server.sequence) =
        (⟨sub.workspace, some (sub.instanceId, sub.generation), server.sequence, rows⟩,
          some ⟨some rows, true⟩) := by
      unfold Client.apply
      rw [header_stamp rfl hgeneration _ _ hsafe]
      dsimp only
      rw [stamp_type, snapshotMessage_type, if_pos rfl]
      have hcheck : checkRows (sub.stamp (snapshotMessage rows) none server.sequence).sessions = some rows :=
        hrows
      rw [hcheck]
      rfl
    exact ⟨_, .accepted rfl happly hstep (.done _), hstep⟩
  · rw [h.baseline] at hsafe ⊢
    dsimp only at hsafe ⊢
    cases hdelta : sessionDelta client.baseline rows with
    | none =>
      dsimp only
      have hsame := eq_of_sessionDelta_none h.valid hrows hdelta
      exact ⟨client, .done client, h.workspace, h.identity, h.sequence, by rw [hsame], h.valid⟩
    | some delta =>
      rw [hdelta] at hsafe
      have hsafe : Safe (server.sequence + 1) := hsafe _ (mem_singleton_self _)
      have hstep : InStep sub { client with baseline := rows, sequence := client.sequence + 1 }
          { server with baseline := some rows, sequence := server.sequence + 1 } :=
        ⟨h.workspace, h.identity, by simp [h.sequence], rfl, hrows⟩
      have hrowsNext : client.delta
          (sub.stamp (deltaMessage delta) (some server.sequence) (server.sequence + 1)) = some rows :=
        delta_applied h.valid hrows hdelta rfl rfl rfl rfl
      have happly : client.apply
          (sub.stamp (deltaMessage delta) (some server.sequence) (server.sequence + 1)) =
          ({ client with baseline := rows, sequence := client.sequence + 1 },
            some ⟨some rows, false⟩) := by
        rw [apply_stamp h hgeneration hsafe (by rw [deltaMessage_type]; decide), deltaMessage_type,
          if_neg (by decide), if_pos rfl, hrowsNext]
      exact ⟨_, .accepted rfl happly hstep (.done _), hstep⟩

theorem sendRecommendations_follows {sub : Subscription} (hgeneration : Safe sub.generation)
    {server : Server} (h : InStep sub client server)
    (hsafe : ∀ sent ∈ (server.sendRecommendations sub).2, Safe sent.server.sequence) :
    ∃ next, Follows sub client (server.sendRecommendations sub).2 next ∧
      InStep sub next (server.sendRecommendations sub).1 := by
  have hsafe : Safe (server.sequence + 1) := hsafe _ (mem_singleton_self _)
  have hstep : InStep sub { client with sequence := client.sequence + 1 }
      { server with sequence := server.sequence + 1 } :=
    ⟨h.workspace, h.identity, by simp [h.sequence], h.baseline, h.valid⟩
  have happly : client.apply (sub.stamp (.bare "recommendations-invalidated") (some server.sequence)
      (server.sequence + 1)) = ({ client with sequence := client.sequence + 1 }, some ⟨none, true⟩) := by
    rw [apply_stamp h hgeneration hsafe (by decide), bare_type, if_pos rfl]
  exact ⟨_, .accepted rfl happly hstep (.done _), hstep⟩

theorem settle_follows {sub : Subscription} {server : Server} (h : InStep sub client server)
    (pass : Pass) :
    Follows sub client (server.settle pass).2 client ∧ InStep sub client (server.settle pass).1 := by
  have hstep : ∀ consumed full, InStep sub client { server with consumed := consumed, full := full } :=
    fun _ _ => ⟨h.workspace, h.identity, h.sequence, h.baseline, h.valid⟩
  unfold Server.settle Server.wake
  cases pass.wake with
  | changed => exact ⟨.done client, hstep _ _⟩
  | reconcile => exact ⟨.done client, hstep _ _⟩
  | heartbeat => exact ⟨.skipped rfl (.done client), hstep _ _⟩
  | refresh => exact ⟨.done client, hstep _ _⟩

/-- What a pass does: it leaves the loop on a failed query, or sends its session half,
its recommendation half and the wake-up's message. A half is left out only once there
is a baseline. -/
theorem pass_cases (server : Server) (sub : Subscription) (pass : Pass) :
    server.pass sub pass = (none, [⟨.bare "unavailable", server⟩]) ∨
    ∃ first second, ((∃ rows, pass.query = some rows ∧ first = server.sendSessions sub rows) ∨
        (server.baseline ≠ none ∧ first = (server, []))) ∧
      (second = first.1.sendRecommendations sub ∨ (server.baseline ≠ none ∧ second = (first.1, []))) ∧
      server.pass sub pass =
        (some (second.1.settle pass).1, first.2 ++ second.2 ++ (second.1.settle pass).2) := by
  unfold Server.pass
  generalize hdirty : (server.baseline.isNone || server.full
    || pass.captured.sessions != server.consumed.sessions) = dirty
  generalize hrecommend : (server.baseline.isNone || server.full
    || pass.captured.recommendations != server.consumed.recommendations) = recommend
  dsimp only
  have hsecond : ∀ first : Server × List Sent,
      (if recommend then first.1.sendRecommendations sub else (first.1, [])) =
        first.1.sendRecommendations sub ∨
      (server.baseline ≠ none ∧ (if recommend then first.1.sendRecommendations sub else (first.1, [])) =
        (first.1, [])) := by
    intro first
    cases recommend with
    | true => exact .inl rfl
    | false =>
      refine .inr ⟨?_, rfl⟩
      intro hnone
      rw [hnone] at hrecommend
      cases hrecommend
  cases dirty with
  | false =>
    have hne : server.baseline ≠ none := by
      intro hnone
      rw [hnone] at hdirty
      cases hdirty
    exact .inr ⟨_, _, .inr ⟨hne, rfl⟩, hsecond _, rfl⟩
  | true =>
    cases pass.query with
    | none => exact .inl rfl
    | some rows => exact .inr ⟨_, _, .inl ⟨rows, rfl, rfl⟩, hsecond _, rfl⟩

theorem pass_follows {sub : Subscription} (hgeneration : Safe sub.generation) {server : Server}
    (h : Ready sub client server) {pass : Pass}
    (hrows : ∀ rows, pass.query = some rows → ValidRows rows)
    (hsafe : ∀ sent ∈ (server.pass sub pass).2, Safe sent.server.sequence) :
    ∃ next, Follows sub client (server.pass sub pass).2 next ∧
      ∀ after, (server.pass sub pass).1 = some after → InStep sub next after := by
  have hstepOf : server.baseline ≠ none → InStep sub client server := by
    intro hne
    rcases h with ⟨-, hnone, -⟩ | h
    · exact absurd hnone hne
    · exact h
  rcases pass_cases server sub pass with hpass | ⟨first, second, hfirst, hsecond, hpass⟩
  · rw [hpass]
    exact ⟨client, .skipped rfl (.done client), fun after hafter => by cases hafter⟩
  · rw [hpass] at hsafe ⊢
    have hone : ∃ middle, Follows sub client first.2 middle ∧ InStep sub middle first.1 := by
      rcases hfirst with ⟨rows, hquery, rfl⟩ | ⟨hne, rfl⟩
      · refine sendSessions_follows hgeneration h (hrows rows hquery) ?_
        intro sent hsent
        exact hsafe sent (mem_append_left _ (mem_append_left _ hsent))
      · exact ⟨client, .done client, hstepOf hne⟩
    obtain ⟨middle, hfollow, hmiddle⟩ := hone
    have htwo : ∃ last, Follows sub middle second.2 last ∧ InStep sub last second.1 := by
      rcases hsecond with rfl | ⟨-, rfl⟩
      · refine sendRecommendations_follows hgeneration hmiddle ?_
        intro sent hsent
        exact hsafe sent (mem_append_left _ (mem_append_right _ hsent))
      · exact ⟨middle, .done middle, hmiddle⟩
    obtain ⟨last, hfollow', hlast⟩ := htwo
    obtain ⟨hsettled, hafter⟩ := settle_follows hlast pass
    refine ⟨last, (hfollow.append hfollow').append hsettled, ?_⟩
    intro after hsome
    cases hsome
    exact hafter

theorem run_follows {sub : Subscription} (hgeneration : Safe sub.generation) {client : Client}
    {server : Server} (h : Ready sub client server) {passes : List Pass}
    (hrows : ∀ pass ∈ passes, ∀ rows, pass.query = some rows → ValidRows rows)
    (hsafe : ∀ sent ∈ server.run sub passes, Safe sent.server.sequence) :
    ∃ last, Follows sub client (server.run sub passes) last := by
  induction passes generalizing client server with
  | nil => exact ⟨client, .done client⟩
  | cons pass passes ih =>
    rw [Server.run] at hsafe ⊢
    cases hpass : server.pass sub pass with
    | mk after sent =>
      rw [hpass] at hsafe
      have hsent : ∀ message ∈ (server.pass sub pass).2, Safe message.server.sequence := by
        rw [hpass]
        intro message hmessage
        cases after with
        | none => exact hsafe message hmessage
        | some next => exact hsafe message (mem_append_left _ hmessage)
      obtain ⟨middle, hfollow, hmiddle⟩ :=
        pass_follows hgeneration h (hrows pass mem_cons_self) hsent
      rw [hpass] at hfollow hmiddle
      cases after with
      | none => exact ⟨middle, hfollow⟩
      | some next =>
        obtain ⟨last, hlast⟩ := ih (.inr (hmiddle next rfl))
          (fun p hp => hrows p (mem_cons_of_mem pass hp))
          (fun message hmessage => hsafe message (mem_append_right _ hmessage))
        exact ⟨last, hfollow.append hlast⟩

/-! ## The numbering of the stream -/

/-- The stateful messages are numbered from `n` on, and only the first of all is a
snapshot. -/
def Sequenced : Nat → List Sent → Prop
  | _, [] => True
  | n, sent :: rest =>
    if sent.stateful then
      sent.message.sequence = .value (n : Int) ∧ sent.server.sequence = n ∧
        (sent.message.type = .value "snapshot" → n = 0) ∧ Sequenced (n + 1) rest
    else Sequenced n rest

def statefulCount (sent : List Sent) : Nat := (sent.filter Sent.stateful).length

theorem Sequenced.append (h : Sequenced n first)
    (k : Sequenced (n + statefulCount first) second) : Sequenced n (first ++ second) := by
  induction first generalizing n with
  | nil => exact k
  | cons sent rest ih =>
    rw [cons_append, Sequenced] at *
    unfold statefulCount at k
    rw [filter_cons] at k
    split
    · rename_i hstate
      rw [if_pos hstate] at h k
      rw [length_cons] at k
      refine ⟨h.1, h.2.1, h.2.2.1, ih h.2.2.2 ?_⟩
      rw [show n + 1 + statefulCount rest = n + (rest.filter Sent.stateful).length + 1 from by
        unfold statefulCount; omega]
      rwa [← Nat.add_assoc] at k
    · rename_i hplain
      rw [if_neg hplain] at h k
      exact ih h k

theorem statefulCount_append (first second : List Sent) :
    statefulCount (first ++ second) = statefulCount first + statefulCount second := by
  unfold statefulCount
  rw [filter_append, length_append]

/-- The number of the message the server sends next. -/
def Server.upcoming (server : Server) : Nat := if server.baseline.isNone then 0 else server.sequence + 1

/-- A server that has sent nothing yet counts from zero. -/
def Server.Counting (server : Server) : Prop := server.baseline = none → server.sequence = 0

theorem sendSessions_sequenced {sub : Subscription} {server : Server} (h : server.Counting)
    (rows : List Row) :
    Sequenced server.upcoming (server.sendSessions sub rows).2 ∧
      (server.sendSessions sub rows).1.upcoming =
        server.upcoming + statefulCount (server.sendSessions sub rows).2 ∧
      (server.sendSessions sub rows).1.baseline = some rows := by
  cases hbaseline : server.baseline with
  | none =>
    have hzero := h hbaseline
    have hsend : server.sendSessions sub rows = ({ server with baseline := some rows },
        [⟨sub.stamp (snapshotMessage rows) none server.sequence, { server with baseline := some rows }⟩]) := by
      unfold Server.sendSessions
      rw [hbaseline]
    have hup : server.upcoming = 0 := by
      unfold Server.upcoming
      rw [hbaseline]
      rfl
    rw [hsend, hup]
    refine ⟨⟨?_, hzero, fun _ => rfl, trivial⟩, ?_, rfl⟩
    · change Field.value (server.sequence : Int) = Field.value ((0 : Nat) : Int)
      rw [hzero]
    · change server.sequence + 1 = 0 + 1
      rw [hzero]
  | some old =>
    have hup : server.upcoming = server.sequence + 1 := by
      unfold Server.upcoming
      rw [hbaseline]
      rfl
    cases hdelta : sessionDelta old rows with
    | none =>
      have hsend : server.sendSessions sub rows = ({ server with baseline := some rows }, []) := by
        unfold Server.sendSessions
        rw [hbaseline]
        dsimp only
        rw [hdelta]
      rw [hsend, hup]
      exact ⟨trivial, rfl, rfl⟩
    | some delta =>
      have hsend : server.sendSessions sub rows =
          ({ server with baseline := some rows, sequence := server.sequence + 1 },
            [⟨sub.stamp (deltaMessage delta) (some server.sequence) (server.sequence + 1),
              { server with baseline := some rows, sequence := server.sequence + 1 }⟩]) := by
        unfold Server.sendSessions
        rw [hbaseline]
        dsimp only
        rw [hdelta]
      rw [hsend, hup]
      exact ⟨⟨rfl, rfl, (fun htype => absurd htype (by simp)), trivial⟩, rfl, rfl⟩

theorem sendRecommendations_sequenced {sub : Subscription} {server : Server} {rows : List Row}
    (h : server.baseline = some rows) :
    Sequenced server.upcoming (server.sendRecommendations sub).2 ∧
      (server.sendRecommendations sub).1.upcoming =
        server.upcoming + statefulCount (server.sendRecommendations sub).2 := by
  unfold Server.sendRecommendations Server.upcoming
  rw [h]
  exact ⟨⟨rfl, rfl, (fun htype => absurd htype (by simp)), trivial⟩, rfl⟩

theorem settle_sequenced (server : Server) (pass : Pass) (n : Nat) :
    Sequenced n (server.settle pass).2 ∧ statefulCount (server.settle pass).2 = 0 ∧
      (server.settle pass).1.upcoming = server.upcoming ∧
      (server.settle pass).1.baseline = server.baseline := by
  unfold Server.settle Server.wake
  cases pass.wake <;> exact ⟨trivial, rfl, rfl, rfl⟩

theorem pass_sequenced {sub : Subscription} {server : Server} (h : server.Counting) (pass : Pass) :
    Sequenced server.upcoming (server.pass sub pass).2 ∧
      ∀ after, (server.pass sub pass).1 = some after → after.Counting ∧
        after.upcoming = server.upcoming + statefulCount (server.pass sub pass).2 := by
  rcases pass_cases server sub pass with hpass | ⟨first, second, hfirst, hsecond, hpass⟩
  · rw [hpass]
    exact ⟨trivial, fun after hafter => by cases hafter⟩
  · rw [hpass]
    obtain ⟨hseq₁, hup₁, rows, hrows⟩ : Sequenced server.upcoming first.2 ∧
        first.1.upcoming = server.upcoming + statefulCount first.2 ∧
        ∃ rows, first.1.baseline = some rows := by
      rcases hfirst with ⟨rows, -, rfl⟩ | ⟨hne, rfl⟩
      · obtain ⟨hseq, hup, hbaseline⟩ := @sendSessions_sequenced sub _ h rows
        exact ⟨hseq, hup, rows, hbaseline⟩
      · obtain ⟨rows, hrows⟩ := Option.ne_none_iff_exists'.mp hne
        exact ⟨trivial, rfl, rows, hrows⟩
    obtain ⟨hseq₂, hup₂, hbaseline⟩ : Sequenced first.1.upcoming second.2 ∧
        second.1.upcoming = first.1.upcoming + statefulCount second.2 ∧
        second.1.baseline = some rows := by
      rcases hsecond with rfl | ⟨-, rfl⟩
      · obtain ⟨hseq, hup⟩ := @sendRecommendations_sequenced sub _ _ hrows
        exact ⟨hseq, hup, hrows⟩
      · exact ⟨trivial, rfl, hrows⟩
    obtain ⟨hseq₃, hcount, hup₃, hsame⟩ := settle_sequenced second.1 pass second.1.upcoming
    refine ⟨?_, ?_⟩
    · refine (hseq₁.append (hup₁ ▸ hseq₂)).append ?_
      rw [statefulCount_append, ← Nat.add_assoc, ← hup₁, ← hup₂]
      exact hseq₃
    · intro after hafter
      cases hafter
      refine ⟨?_, ?_⟩
      · intro hnone
        rw [hsame, hbaseline] at hnone
        cases hnone
      · rw [hup₃, statefulCount_append, statefulCount_append, hcount, hup₂, hup₁]
        omega

theorem run_sequenced {sub : Subscription} {server : Server} (h : server.Counting)
    (passes : List Pass) : Sequenced server.upcoming (server.run sub passes) := by
  induction passes generalizing server with
  | nil => trivial
  | cons pass passes ih =>
    obtain ⟨hseq, hafter⟩ := @pass_sequenced sub _ h pass
    rw [Server.run]
    cases hpass : server.pass sub pass with
    | mk after sent =>
      rw [hpass] at hseq hafter
      cases after with
      | none => exact hseq
      | some next =>
        obtain ⟨hcounting, hup⟩ := hafter next rfl
        exact hseq.append (hup ▸ ih hcounting)

/-! ## What the client rejects -/

/-- Before its snapshot the client takes nothing else; after it, no snapshot and no
message but the next in number. -/
theorem apply_rejected
    (h : (client.identity = none ∧ message.type ≠ .value "snapshot") ∨
      (client.identity ≠ none ∧ (message.type = .value "snapshot" ∨
        message.sequence ≠ .value (client.sequence + 1)))) :
    client.apply message = (client, none) := by
  unfold Client.apply
  cases hheader : client.header message with
  | none => rfl
  | some header =>
    obtain ⟨instanceId, generation, sequence⟩ := header
    have hsequence : message.sequence = .value sequence := by
      unfold Client.header at hheader
      split at hheader
      · split at hheader
        · rename_i hread
          cases hheader
          unfold safeCount at hread
          split at hread
          · split at hread
            · cases hread
              assumption
            · cases hread
          · cases hread
        · cases hheader
      · cases hheader
    dsimp only
    rcases h with ⟨hnone, htype⟩ | ⟨hsome, hstale⟩
    · rw [if_neg htype, if_pos (.inl (by rw [hnone]; simp))]
    · split
      · split
        · rename_i hnone _
          exact absurd hnone hsome
        · rfl
      · rename_i htype
        rw [if_pos]
        refine .inr (.inr ?_)
        rintro rfl
        exact (hstale.resolve_left htype) hsequence

theorem apply_foreign
    (h : message.workspace ≠ .value client.workspacePath ∨
      ∃ instanceId generation, client.identity = some (instanceId, generation) ∧
        (message.instanceId ≠ .value instanceId ∨ message.generation ≠ .value generation)) :
    client.apply message = (client, none) := by
  unfold Client.apply
  cases hheader : client.header message with
  | none => rfl
  | some header =>
    obtain ⟨instanceId, generation, sequence⟩ := header
    have hread : message.workspace = .value client.workspacePath ∧ message.instanceId = .value instanceId ∧
        message.generation = .value generation := by
      unfold Client.header at hheader
      split at hheader
      · rename_i hown
        split at hheader
        · rename_i hid hgen _
          cases hheader
          refine ⟨hown.2, hid, ?_⟩
          unfold safeCount at hgen
          split at hgen
          · split at hgen
            · cases hgen
              assumption
            · cases hgen
          · cases hgen
        · cases hheader
      · cases hheader
    rcases h with hother | ⟨ownInstance, ownGeneration, hidentity, hother⟩
    · exact absurd hread.1 hother
    · dsimp only
      have hne : client.identity ≠ some (instanceId, generation) := by
        rw [hidentity]
        rintro ⟨⟩
        rcases hother with hother | hother
        · exact hother hread.2.1
        · exact hother hread.2.2
      split
      · rw [hidentity]
      · rw [if_pos (.inl hne)]

theorem Sequenced.number {stream : List Sent} (h : Sequenced n stream)
    (hall : ∀ sent ∈ stream, sent.stateful = true) {sent : Sent} (hsent : sent ∈ stream) :
    ∃ i < stream.length, sent.message.sequence = .value ((n + i : Nat) : Int) ∧
      (sent.message.type = .value "snapshot" → n + i = 0) := by
  induction stream generalizing n with
  | nil => cases hsent
  | cons first rest ih =>
    rw [Sequenced, if_pos (hall first mem_cons_self)] at h
    rcases mem_cons.mp hsent with rfl | hsent
    · exact ⟨0, by simp, h.1, h.2.2.1⟩
    · obtain ⟨i, hi, hnumber, hsnapshot⟩ :=
        ih h.2.2.2 (fun s hs => hall s (mem_cons_of_mem first hs)) hsent
      refine ⟨i + 1, by simpa using hi, ?_, ?_⟩
      · rw [hnumber, show n + 1 + i = n + (i + 1) from by omega]
      · intro htype
        have := hsnapshot htype
        omega

/-- A client that followed a part of the stream holds the number of its last
message. -/
theorem Follows.cursor {sub : Subscription} {stream : List Sent}
    (h : Follows sub client stream last) (hseq : Sequenced n stream)
    (hall : ∀ sent ∈ stream, sent.stateful = true) (hne : stream ≠ []) :
    last.workspacePath = sub.workspace ∧
      last.identity = some (sub.instanceId, (sub.generation : Int)) ∧
      last.sequence + 1 = ((n + stream.length : Nat) : Int) := by
  induction h generalizing n with
  | done => exact absurd rfl hne
  | skipped hplain _ _ =>
    have := hall _ mem_cons_self
    rw [hplain] at this
    cases this
  | accepted hstate happly hstep hrest ih =>
    rename_i sent rest result
    rw [Sequenced, if_pos hstate] at hseq
    by_cases hnil : rest = []
    · subst hnil
      cases hrest
      refine ⟨hstep.workspace, hstep.identity, ?_⟩
      rw [hstep.sequence, hseq.2.1]
      simp
    · obtain ⟨hworkspace, hidentity, hcursor⟩ :=
        ih hseq.2.2.2 (fun s hs => hall s (mem_cons_of_mem sent hs)) hnil
      refine ⟨hworkspace, hidentity, ?_⟩
      rw [hcursor, length_cons]
      omega

theorem Sequenced.filter {sent : List Sent} (h : Sequenced n sent) :
    Sequenced n (sent.filter Sent.stateful) := by
  induction sent generalizing n with
  | nil => trivial
  | cons first rest ih =>
    rw [Sequenced] at h
    rw [filter_cons]
    split
    · rename_i hstate
      rw [if_pos hstate] at h
      rw [Sequenced, if_pos hstate]
      exact ⟨h.1, h.2.1, h.2.2.1, ih h.2.2.2⟩
    · rename_i hplain
      rw [if_neg hplain] at h
      exact ih h

theorem Follows.filter {sub : Subscription} {sent : List Sent}
    (h : Follows sub client sent last) : Follows sub client (sent.filter Sent.stateful) last := by
  induction h with
  | done => exact .done _
  | skipped hplain _ ih =>
    rw [filter_cons, if_neg (by simp [hplain])]
    exact ih
  | accepted hstate happly hstep _ ih =>
    rw [filter_cons, if_pos hstate]
    exact .accepted hstate happly hstep ih

theorem Sequenced.split (h : Sequenced n (first ++ second))
    (hall : ∀ sent ∈ first, sent.stateful = true) :
    Sequenced n first ∧ Sequenced (n + first.length) second := by
  induction first generalizing n with
  | nil => exact ⟨trivial, h⟩
  | cons sent rest ih =>
    have hstate := hall sent mem_cons_self
    rw [cons_append, Sequenced, if_pos hstate] at h
    obtain ⟨hrest, hsecond⟩ := ih h.2.2.2 (fun s hs => hall s (mem_cons_of_mem sent hs))
    refine ⟨?_, ?_⟩
    · rw [Sequenced, if_pos hstate]
      exact ⟨h.1, h.2.1, h.2.2.1, hrest⟩
    · rw [length_cons, show n + (rest.length + 1) = n + 1 + rest.length from by omega]
      exact hsecond

/-! ## The stream -/

/-- Every snapshot, delta and invalidation of the server is accepted by the client and
leaves it with the server's list, in its order, and its sequence number. A message of
the stream that is not the next one, and a message of another workspace, instance or
generation, is rejected and changes nothing. -/
theorem stream_in_step (sub : Subscription) (passes : List Pass) (hgeneration : Safe sub.generation)
    (hrows : ∀ pass ∈ passes, ∀ rows, pass.query = some rows → ValidRows rows)
    (hsafe : ∀ sent ∈ Server.start.run sub passes, Safe sent.server.sequence) :
    let stream := (Server.start.run sub passes).filter Sent.stateful
    (∃ client, Follows sub (.new sub.workspace) stream client) ∧
    ∀ before after client, stream = before ++ after →
      Follows sub (.new sub.workspace) before client →
      (∀ sent ∈ before ++ after.tail, client.apply sent.message = (client, none)) ∧
      ∀ message, (message.workspace ≠ .value sub.workspace ∨
          (before ≠ [] ∧ (message.instanceId ≠ .value sub.instanceId ∨
            message.generation ≠ .value (sub.generation : Int)))) →
        client.apply message = (client, none) := by
  intro stream
  obtain ⟨last, hlast⟩ := run_follows hgeneration (.inl ⟨rfl, rfl, rfl⟩) hrows hsafe
  refine ⟨⟨last, hlast.filter⟩, ?_⟩
  intro before after client hsplit hbefore
  have hseq : Sequenced 0 stream := (@run_sequenced sub .start (fun _ => rfl) passes).filter
  have hall : ∀ sent ∈ stream, sent.stateful = true := fun sent hsent => (mem_filter.mp hsent).2
  have hallBefore : ∀ sent ∈ before, sent.stateful = true := fun sent hsent =>
    hall sent (hsplit ▸ mem_append_left after hsent)
  have hallAfter : ∀ sent ∈ after, sent.stateful = true := fun sent hsent =>
    hall sent (hsplit ▸ mem_append_right before hsent)
  obtain ⟨hseqBefore, hseqAfter⟩ := (hsplit ▸ hseq).split hallBefore
  rw [Nat.zero_add] at hseqAfter
  -- the numbers of the messages after the next one
  have hlate : ∀ sent ∈ after.tail, ∃ i, sent.message.sequence = .value ((before.length + 1 + i : Nat) : Int) ∧
      sent.message.type ≠ .value "snapshot" := by
    intro sent hsent
    cases after with
    | nil => cases hsent
    | cons next rest =>
      rw [Sequenced, if_pos (hallAfter next mem_cons_self)] at hseqAfter
      obtain ⟨i, -, hnumber, hsnapshot⟩ := hseqAfter.2.2.2.number
        (fun s hs => hallAfter s (mem_cons_of_mem next hs)) hsent
      refine ⟨i, hnumber, ?_⟩
      intro htype
      have := hsnapshot htype
      omega
  by_cases hne : before = []
  · subst hne
    cases hbefore
    refine ⟨?_, ?_⟩
    · intro sent hsent
      obtain ⟨i, -, htype⟩ := hlate sent (by simpa using hsent)
      exact apply_rejected (.inl ⟨rfl, htype⟩)
    · rintro message (hother | ⟨hne, -⟩)
      · exact apply_foreign (.inl hother)
      · exact absurd rfl hne
  · obtain ⟨hworkspace, hidentity, hcursor⟩ := hbefore.cursor hseqBefore hallBefore hne
    rw [Nat.zero_add] at hcursor
    refine ⟨?_, ?_⟩
    · intro sent hsent
      refine apply_rejected (.inr ⟨by rw [hidentity]; simp, ?_⟩)
      rw [hcursor]
      rcases mem_append.mp hsent with hsent | hsent
      · obtain ⟨i, hi, hnumber, -⟩ := hseqBefore.number hallBefore hsent
        right
        rw [hnumber]
        intro heq
        have := Field.value.inj heq
        omega
      · obtain ⟨i, hnumber, -⟩ := hlate sent hsent
        right
        rw [hnumber]
        intro heq
        have := Field.value.inj heq
        omega
    · rintro message (hother | ⟨-, hother⟩)
      · exact apply_foreign (.inl (by rw [hworkspace]; exact hother))
      · exact apply_foreign (.inr ⟨_, _, hidentity, hother⟩)

namespace Sample

def row (id label lifecycle : String) : Row where
  id := .value id
  label := .value label
  cwd := .value "/work"
  createdAt := .value "2026-10-24T10:00:00Z"
  status := .value "running"
  lifecycle := .value lifecycle
  memoryState := .value "remembered"
  resumeStrategy := .value "none"
  rest := ""

def sub : Subscription := ⟨"instance", "/work", 0⟩

/-- A snapshot of two sessions, then a pass in which one is renamed, one is gone and a
third one came first. -/
def passes : List Pass :=
  [⟨⟨0, 0⟩, some [row "a" "old" "alive", row "b" "gone" "dead"], .heartbeat⟩,
   ⟨⟨1, 0⟩, some [row "c" "new" "creating", row "a" "renamed" "alive"], .changed⟩]

end Sample

/-- The two passes are followed: three stateful messages, the last a delta. -/
theorem renamed_session_followed :
    (∃ client, Follows Sample.sub (.new "/work")
      ((Server.start.run Sample.sub Sample.passes).filter Sent.stateful) client) ∧
    ((Server.start.run Sample.sub Sample.passes).filter Sent.stateful).length = 3 := by
  refine ⟨(stream_in_step Sample.sub Sample.passes (by decide) ?_ (by decide)).1,
    by decide⟩
  intro pass hpass rows hquery
  simp only [Sample.passes, mem_cons, not_mem_nil, or_false] at hpass
  unfold ValidRows
  rcases hpass with rfl | rfl
  · cases hquery
    decide
  · cases hquery
    decide

/-- A heartbeat is sent on the same stream and is no message `createStreamState`
accepts: the socket handler takes it out before. -/
theorem heartbeat_not_applied :
    ¬ ∀ sub passes, Safe sub.generation →
      (∀ pass ∈ passes, ∀ rows, pass.query = some rows → ValidRows rows) →
      (∀ sent ∈ Server.start.run sub passes, Safe sent.server.sequence) →
      ∀ before sent after client, Server.start.run sub passes = before ++ sent :: after →
        Follows sub (.new sub.workspace) before client →
        ∃ next result, client.apply sent.message = (next, some result) := by
  intro hclaim
  have hempty : ∀ pass ∈ [(⟨⟨0, 0⟩, some [], .heartbeat⟩ : Pass)], ∀ rows,
      pass.query = some rows → ValidRows rows := by
    intro pass hpass rows hquery
    rw [mem_singleton] at hpass
    subst hpass
    cases hquery
    unfold ValidRows
    decide
  have hsafe : ∀ sent ∈ Server.start.run Sample.sub [⟨⟨0, 0⟩, some [], .heartbeat⟩],
      Safe sent.server.sequence := by decide
  obtain ⟨last, hlast⟩ := @run_follows Sample.sub (by decide) (.new "/work") .start (.inl ⟨rfl, rfl, rfl⟩) _ hempty hsafe
  obtain ⟨next, result, happly⟩ := hclaim Sample.sub [⟨⟨0, 0⟩, some [], .heartbeat⟩] (by decide) hempty
    hsafe _ ⟨.bare "heartbeat", _⟩ [] last rfl hlast.filter
  have hreject : last.apply (.bare "heartbeat") = (last, none) := by
    unfold Client.apply Client.header
    rfl
  rw [hreject] at happly
  cases happly

end Orkworksd.Workspace
