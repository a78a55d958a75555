import Orkworksd.Taskmaster.RollupMembers

/- Applying clusters is atomic and keeps the graph valid.

   The call lists the records twice and then runs a graph transaction; each of the
   three recovers first, and after the first recovery there is nothing left to
   recover. A transaction that fails has written nothing, or has published a graph
   that does not read back, for example because a parent took over a completion
   packet that does not fit its sessions; it then puts the files back, and the next
   recovery removes what it left. The caller's updates are records it read and
   enriched, or new ones. -/
namespace Orkworksd.Taskmaster
open Lib List

theorem Matched.congr {stored stored' : List Recommendation} {snapshot : RollupFamilySnapshot}
    {member : Recommendation} (h : Matched stored snapshot member)
    (hsame : findById stored = findById stored') : Matched stored' snapshot member :=
  ⟨hsame ▸ h.found, hsame ▸ h.held, h.free⟩

section reading
variable {env : Env} {files : Files}

theorem listed_records {current : List Recommendation}
    {listed : List Recommendation × TextMap String} (hlist : listRecords env files = .ok current)
    (hlisted : recordsWithHashes env files = .ok listed) :
    ∃ records, readAll env files = .ok records ∧ Graph.Ok env.digests records ∧
      findById current = findById records ∧ ∀ legacyUpdates,
        projected listed.1 legacyUpdates = projected records legacyUpdates := by
  obtain ⟨records, hrecords, hlist⟩ := bind_eq_ok.mp hlist
  obtain ⟨hgraph, hlist⟩ := seq_eq_ok.mp hlist
  rw [validateGraphRecords_ok_iff] at hgraph
  obtain ⟨stored, hstored, hlisted⟩ := bind_eq_ok.mp hlisted
  obtain ⟨-, hlisted⟩ := seq_eq_ok.mp hlisted
  obtain ⟨stored', hstored', rfl⟩ := readAll_ok.mp hrecords
  rw [hstored, Except.ok.injEq] at hstored'
  subst hstored'
  cases hlist
  cases hlisted
  refine ⟨_, hrecords, hgraph, ?_, ?_⟩
  · refine findById_congr ?_ hgraph.ids (fun r => mem_sortBy)
    have hperm : (sortBy listedBefore (stored.map Prod.fst)).Perm (stored.map Prod.fst) :=
      sortBy_perm
    exact (hperm.map (·.id)).nodup_iff.mpr hgraph.ids
  · intro legacyUpdates
    have hperm : ((sortBy (fun left right => listedBefore left.1 right.1) stored).map
        Prod.fst).Perm (stored.map Prod.fst) := sortBy_perm.map Prod.fst
    have hsame : recordsById ((sortBy (fun left right => listedBefore left.1 right.1) stored).map
        Prod.fst) = recordsById (stored.map Prod.fst) := by
      apply TextMap.ext
      intro id
      apply Option.ext
      intro r
      rw [recordsById_get ((hperm.map (·.id)).nodup_iff.mpr hgraph.ids), recordsById_get hgraph.ids,
        hperm.mem_iff]
    unfold projected
    rw [hsame]

theorem contains_iff {records : List Recommendation} (h : readAll env files = .ok records)
    (r : Recommendation) : Contains env files r ↔ r ∈ records := by
  obtain ⟨stored, hstored, rfl⟩ := readAll_ok.mp h
  constructor
  · intro hr
    obtain ⟨bytes, hholds⟩ := hr
    exact mem_map.mpr ⟨(r, bytes), (mem_readAllStored hstored r bytes).mpr hholds, rfl⟩
  · intro hr
    obtain ⟨⟨r', bytes⟩, hmem, rfl⟩ := mem_map.mp hr
    exact ⟨bytes, (mem_readAllStored hstored r' bytes).mp hmem⟩

end reading

/-- The store the call leaves when it returns `true`. -/
structure RollupOutcome (env : Env) (request : RollupRequest) (before after : Files) : Prop where
  valid : validateGraph env after = .ok ()
  terminal : ∀ r, Contains env before r → finalStatus r.status = true → Contains env after r
  members : ∀ snapshot ∈ request.suppliedSnapshots, ∃ member member',
    Contains env before member ∧ member.id = snapshot.recommendationId ∧
    Contains env after member' ∧ member'.id = snapshot.recommendationId ∧
    Settled (Contains env after) member' ∧ SameEvidence request.legacyUpdates member member'

/-- Only a recovery that was due has touched the record files, and recovering the
store gives what it gave before. -/
structure StoreUnchanged (env : Env) (before after : Disk) : Prop where
  files : after.files = before.files ∨ after.files = (recoverTransactions env before).last.files
  recovers : (recoverTransactions env before).result = .ok () →
    (recoverTransactions env after).result = .ok () ∧
      (recoverTransactions env after).last = (recoverTransactions env before).last

section call
variable {env : Env} {codec : RollupCodec} {size : List WorkflowObservationEvidence → Nat}
  {uuid : String} {request : RollupRequest} {files : Files} {graph : RollupGraph}

/-- What is known of a graph that the call has worked out. -/
structure Prepared (env : Env) (request : RollupRequest) (files : Files)
    (records : List Recommendation) (inputs : RollupInputs) (graph : RollupGraph) : Prop where
  read : readAll env files = .ok records
  setting : Setting env.digests records request.legacyUpdates inputs
  snapshots : inputs.suppliedSnapshots = request.suppliedSnapshots
  loops : ∃ all, Wrote.Loops env.digests inputs graph all
  updates : ∀ update ∈ request.legacyUpdates, update.id ∈ graph.expected.keys

variable {records : List Recommendation} {inputs : RollupInputs}

section
variable (h : Prepared env request files records inputs graph)
include h

theorem Prepared.keyed :
    Keyed graph.working := by
  obtain ⟨all, hloops⟩ := h.loops
  rw [hloops.wrote.working]
  exact keyed_written (keyed_recordsById _) all

theorem Prepared.outcome {after : Files}
    (hvalid : validateGraph env after = .ok ())
    (hterminal : ∀ r, Contains env files r → finalStatus r.status = true → Contains env after r)
    (honly : ∀ r, Contains env after r → graph.working[r.id]? = some r)
    (hkept : ∀ r, Contains env files r → ∃ r', r'.id = r.id ∧ Contains env after r') :
    RollupOutcome env request files after where
  valid := hvalid
  terminal := hterminal
  members := by
    intro snapshot hsnapshot
    obtain ⟨all, hloops⟩ := h.loops
    obtain ⟨now, hnow, hgraph⟩ := validateGraph_ok.mp hvalid
    rw [← h.snapshots] at hsnapshot
    obtain ⟨member, hmatched⟩ := h.setting.matched snapshot hsnapshot
    obtain ⟨hmember, hid⟩ := findById_mem hmatched.found
    have hbefore := (contains_iff h.read member).mpr hmember
    obtain ⟨member', hid', hafter⟩ := hkept member hbefore
    obtain ⟨member₀, hmatched₀, hsettled, hsame⟩ := h.setting.settled hloops hgraph
      (fun r hr => honly r ((contains_iff hnow r).mpr hr)) hsnapshot
      ((contains_iff hnow member').mp hafter) (hid'.trans hid)
    have hfound := hmatched₀.found
    rw [hmatched.found, Option.some.injEq] at hfound
    subst hfound
    have hholds : (fun r => r ∈ now) = Contains env after := by
      funext r
      exact propext (contains_iff hnow r).symm
    exact ⟨member, member', hbefore, hid, hafter, hid'.trans hid, hholds ▸ hsettled, hsame⟩

/-- Nothing was expected, so nothing was written. -/
theorem Prepared.outcome_of_empty
    (hempty : graph.expected.isEmpty = true) : RollupOutcome env request files files := by
  have hkeys : ∀ id, id ∉ graph.expected.keys := by
    intro id hid
    rw [Std.ExtTreeMap.isEmpty_iff.mp hempty, TextMap.keys_empty] at hid
    cases hid
  have hupdates : request.legacyUpdates = [] := by
    rw [eq_nil_iff_forall_not_mem]
    intro update hupdate
    exact hkeys _ (h.updates update hupdate)
  have hvalid := validateGraph_ok.mpr ⟨records, h.read, h.setting.graph⟩
  refine h.outcome hvalid (fun r hr _ => hr) ?_ (fun r hr => ⟨r, rfl, hr⟩)
  intro r hr
  obtain ⟨all, hloops⟩ := h.loops
  have hall : all = [] := by
    rw [eq_nil_iff_forall_not_mem]
    intro r' hr'
    exact hkeys _ (hloops.wrote.expected r' hr')
  have hmem := (contains_iff h.read r).mp hr
  rw [hloops.wrote.working, hall]
  change (recordsById inputs.current)[r.id]? = some r
  rw [h.setting.current_get, h.setting.current, hupdates, findById_projected]
  exact (recordsById_get h.setting.graph.ids).mpr ⟨hmem, rfl⟩

theorem Prepared.meets
    (hserde : env.serde.Lawful) (hdigest : DigestsTellApart env files (values graph.working)) :
    Prog.Meets (applyRecommendationGraphTransaction env uuid graph.expected (values graph.working))
      ⟨files, none⟩ (fun _ d => RollupOutcome env request files d.files)
      (fun _ d => StoreUnchanged env ⟨files, none⟩ d) (fun _ => True) := by
  have hclean : ∀ d : Disk, d = ⟨files, none⟩ → StoreUnchanged env ⟨files, none⟩ d := by
    rintro d rfl
    exact ⟨.inl rfl, fun _ => ⟨rfl, rfl⟩⟩
  -- the recovery finds nothing to do
  have hstart : Prog.Meets (recoverTransactions env) ⟨files, none⟩
      (fun _ d => d = ⟨files, none⟩) (fun _ d => StoreUnchanged env ⟨files, none⟩ d)
      (fun _ => True) :=
    ⟨fun _ _ => trivial, fun _ _ => rfl, fun _ he => by cases he⟩
  refine Prog.Meets.seq hstart ?_
  intro _ d hd
  subst hd
  refine (applyRecovered_meets hserde hdigest).mono ?_ ?_ (fun _ h => h)
  · intro _ d happlied
    refine h.outcome happlied.valid happlied.terminal ?_ ?_
    · intro r hr
      obtain ⟨id, hget⟩ := mem_values.mp (happlied.only r hr)
      rw [h.keyed id r hget]
      exact hget
    · intro r hr
      obtain ⟨r', -, hid, hafter⟩ := happlied.kept r hr
      exact ⟨r', hid, hafter⟩
  · intro _ d hd
    rcases hd with hd | hback
    · exact hclean d hd
    · refine ⟨.inl hback.restored, fun _ => ?_⟩
      refine hback.recovers ?_
      intro r hr
      obtain ⟨id, hget⟩ := mem_values.mp hr
      obtain ⟨all, hloops⟩ := h.loops
      have hid := h.keyed id r hget
      subst hid
      by_cases hwritten : r.id ∈ all.map (·.id)
      · obtain ⟨r', hr', hid⟩ := mem_map.mp hwritten
        exact .inr (hid ▸ hloops.wrote.expected r' hr')
      · rw [hloops.wrote.working, written_get_of_notMem hwritten, h.setting.current_get,
          h.setting.current, findById_projected] at hget
        by_cases hupdated : r.id ∈ request.legacyUpdates.map (·.id)
        · obtain ⟨update, hupdate, hid⟩ := mem_map.mp hupdated
          exact .inr (hid ▸ h.updates update hupdate)
        · rw [written_get_of_notMem hupdated, recordsById_get h.setting.graph.ids] at hget
          exact .inl ⟨r, (contains_iff h.read r).mpr hget.1, rfl⟩

end

theorem StoreUnchanged.recovered (env : Env) (d : Disk) :
    StoreUnchanged env d (recoverTransactions env d).last := by
  refine ⟨.inr rfl, fun hok => ?_⟩
  rw [recovered_disk hok]
  exact ⟨rfl, rfl⟩

theorem StoreUnchanged.after_recovery {d after : Disk}
    (hok : (recoverTransactions env d).result = .ok ())
    (h : StoreUnchanged env ⟨(recoverTransactions env d).last.files, none⟩ after) :
    StoreUnchanged env d after := by
  refine ⟨.inr (h.files.elim id id), fun _ => ?_⟩
  rw [recovered_disk hok]
  exact h.recovers rfl

theorem rollupInputsMatch_meets (d : Disk) :
    Prog.Meets (rollupInputsMatchLocked env codec request.workspace request.workspaceInstance
        request.suppliedSnapshots) d
      (fun matching d' => (matching = false → StoreUnchanged env d d') ∧
        (matching = true → (recoverTransactions env d).result = .ok () ∧
          d' = (recoverTransactions env d).last ∧ ∃ current,
            listRecords env (recoverTransactions env d).last.files = .ok current ∧
            ∀ snapshot ∈ request.suppliedSnapshots, ∃ member, Matched current snapshot member))
      (fun _ _ => False) (fun _ => True) := by
  refine Prog.Meets.ite' ?_ ?_
  · intro _
    refine Prog.Meets.pure' ⟨fun _ => ⟨.inl rfl, fun hok => ⟨hok, rfl⟩⟩, ?_⟩
    intro h
    cases h
  · intro _
    have hlist : Prog.Meets (list env) d
        (fun current d' => (recoverTransactions env d).result = .ok () ∧
          d' = (recoverTransactions env d).last ∧
            listRecords env (recoverTransactions env d).last.files = .ok current)
        (fun _ d' => d' = (recoverTransactions env d).last) (fun _ => True) := by
      have hrecover : Prog.Meets (recoverTransactions env) d
          (fun _ d' => (recoverTransactions env d).result = .ok () ∧
            d' = (recoverTransactions env d).last)
          (fun _ d' => d' = (recoverTransactions env d).last) (fun _ => True) :=
        ⟨fun _ _ => trivial, fun _ hok => ⟨hok, rfl⟩, fun _ _ => rfl⟩
      refine Prog.Meets.seq hrecover ?_
      intro _ d' hd'
      obtain ⟨hok, rfl⟩ := hd'
      exact Prog.Meets.check' (fun _ hcurrent => ⟨hok, rfl, hcurrent⟩) (fun _ _ => rfl)
    refine Prog.Meets.bind' (Prog.Meets.attempt' (hlist.mono ?_ ?_ (fun _ h => h)))
    · intro current d' h
      obtain ⟨hok, rfl, hcurrent⟩ := h
      refine Prog.Meets.pure' ⟨fun _ => StoreUnchanged.recovered env d, ?_⟩
      intro hmatching
      refine ⟨hok, rfl, current, hcurrent, ?_⟩
      intro snapshot hsnapshot
      exact snapshotMatches_matched (all_eq_true.mp hmatching snapshot hsnapshot)
    · intro _ d' h
      subst h
      refine Prog.Meets.pure' ⟨fun _ => StoreUnchanged.recovered env d, ?_⟩
      intro h
      cases h

theorem applyRollup_meets (hserde : env.serde.Lawful) {d s : Disk}
    (hs : s = (recoverTransactions env d).last)
    (hmembers : ∀ cluster ∈ request.clusters, ∀ id ∈ cluster.memberRecommendationIds,
      id ∈ request.suppliedSnapshots.map (·.recommendationId))
    (hupdates : ∀ update ∈ request.legacyUpdates, ∀ r, Contains env s.files r →
      r.id = update.id → Enriches r update)
    (hdigest : ∀ listed graph, recordsWithHashes env s.files = .ok listed →
      rollupGraph env.digests (request.inputs size listed) request.legacyUpdates = some graph →
        DigestsTellApart env s.files (values graph.working)) :
    Prog.Meets (applyRollupClustersLocked env codec size uuid request) d
      (fun returned d' => (returned = true → RollupOutcome env request s.files d'.files) ∧
        (returned = false → StoreUnchanged env d d'))
      (fun _ _ => False) (fun _ => True) := by
  subst hs
  refine Prog.Meets.seq (rollupInputsMatch_meets d) ?_
  intro matching d' hmatching
  refine Prog.Meets.ite' ?_ ?_
  · intro hfalse
    exact Prog.Meets.pure' ⟨fun h => (by cases h), fun _ => hmatching.1 (by simpa using hfalse)⟩
  · intro htrue
    obtain ⟨hok, rfl, current, hcurrent, hmatched⟩ := hmatching.2 (by simpa using htrue)
    have hunchanged := StoreUnchanged.recovered env d
    have hclean := recovered_disk hok
    generalize hfiles : (recoverTransactions env d).last.files = files at *
    rw [hclean] at hunchanged ⊢
    have hlisted : Prog.Meets (listWithHashes env) ⟨files, none⟩
        (fun listed d' => d' = ⟨files, none⟩ ∧ recordsWithHashes env files = .ok listed)
        (fun _ d' => d' = ⟨files, none⟩) (fun _ => True) := by
      have hstart : Prog.Meets (recoverTransactions env) ⟨files, none⟩
          (fun _ d => d = ⟨files, none⟩) (fun _ d => d = ⟨files, none⟩) (fun _ => True) :=
        ⟨fun _ _ => trivial, fun _ _ => rfl, fun _ he => by cases he⟩
      refine Prog.Meets.seq hstart ?_
      intro _ d' hd'
      subst hd'
      exact Prog.Meets.check' (fun _ h => ⟨rfl, h⟩) (fun _ _ => rfl)
    refine Prog.Meets.bind' (Prog.Meets.attempt' (hlisted.mono ?_ ?_ (fun _ h => h)))
    · intro listed d' h
      obtain ⟨rfl, hlisted⟩ := h
      obtain ⟨records, hrecords, hgraph, hfind, hprojected⟩ := listed_records hcurrent hlisted
      dsimp only
      cases hplan : rollupGraph env.digests (request.inputs size listed) request.legacyUpdates with
      | none => exact Prog.Meets.pure' ⟨fun h => (by cases h), fun _ => hunchanged⟩
      | some graph =>
        obtain ⟨hloops, hexpected⟩ := rollupGraph_loops hplan
        have hsetting : Setting env.digests records request.legacyUpdates
            (request.inputs size listed) := by
          refine ⟨hgraph, ?_, hprojected _, ?_, hmembers⟩
          · intro snapshot hsnapshot
            obtain ⟨member, hmember⟩ := hmatched snapshot hsnapshot
            exact ⟨member, hmember.congr hfind⟩
          · intro update hupdate r hr
            exact hupdates update hupdate r ((contains_iff hrecords r).mpr hr)
        have hprepared : Prepared env request files records (request.inputs size listed) graph :=
          ⟨hrecords, hsetting, rfl, hloops, hexpected⟩
        refine Prog.Meets.ite' ?_ ?_
        · intro hempty
          exact Prog.Meets.pure' ⟨fun _ => hprepared.outcome_of_empty hempty, fun h => (by cases h)⟩
        · intro _
          refine Prog.Meets.bind' (Prog.Meets.attempt' ((hprepared.meets hserde
            (hdigest listed graph hlisted hplan)).mono ?_ ?_ (fun _ h => h)))
          · intro _ d' houtcome
            exact Prog.Meets.pure' ⟨fun _ => houtcome, fun h => (by cases h)⟩
          · intro _ d' hback
            refine Prog.Meets.pure' ⟨fun h => (by cases h), fun _ => ?_⟩
            subst hfiles
            exact hback.after_recovery hok
    · intro _ d' h
      subst h
      exact Prog.Meets.pure' ⟨fun h => (by cases h), fun _ => hunchanged⟩

end call

/-- **Rollup application is atomic and graph-preserving.** Let `s` be the store
the call finds, once what an earlier call left is recovered, let the clusters be
accepted ones (their changes may have been resolved against the disk since), and
let every update of a stored record be an enrichment. The call returns. If it
returns `true`, the graph is valid, the records with a final status are there as
they were, and every supplied member is proposed on its own or under exactly one
active parent that lists it, with the evidence it had; only the knowledge it cites
may be that of an update. If it returns `false`, the store is unchanged. -/
theorem rollup_application_atomic (env : Env) (hserde : env.serde.Lawful) (codec : RollupCodec)
    (size : List WorkflowObservationEvidence → Nat) (uuid : String) (request : RollupRequest)
    (d s : Disk) (hs : s = (recoverTransactions env d).last)
    (modelClusters : List ModelRollupCluster) (accepted : List RollupCluster)
    (haccepted : validateRollupClusters codec request.suppliedSnapshots modelClusters =
      .ok accepted)
    (change : RollupCluster → ProposedChange)
    (hclusters : request.clusters =
      accepted.map (fun cluster => { cluster with proposedChange := change cluster }))
    (hupdates : ∀ update ∈ request.legacyUpdates, ∀ r, Contains env s.files r →
      r.id = update.id → Enriches r update)
    (hdigest : ∀ listed graph, recordsWithHashes env s.files = .ok listed →
      rollupGraph env.digests (request.inputs size listed) request.legacyUpdates = some graph →
        DigestsTellApart env s.files (values graph.working)) :
    (d.transactions = none → s = d) ∧
    ∃ returned, (applyRollupClustersLocked env codec size uuid request d).result = .ok returned ∧
      (returned = true → RollupOutcome env request s.files
        (applyRollupClustersLocked env codec size uuid request d).last.files) ∧
      (returned = false →
        StoreUnchanged env d (applyRollupClustersLocked env codec size uuid request d).last) := by
  have hsound := (validateRollupClusters_ok.mp haccepted).1.sound
  rw [← (validateRollupClusters_ok.mp haccepted).2] at hsound
  have hmembers : ∀ cluster ∈ request.clusters, ∀ id ∈ cluster.memberRecommendationIds,
      id ∈ request.suppliedSnapshots.map (·.recommendationId) := by
    intro cluster hcluster id hid
    rw [hclusters] at hcluster
    obtain ⟨original, horiginal, rfl⟩ := mem_map.mp hcluster
    obtain ⟨snapshot, hsnapshot, hsame, -⟩ := hsound.supplied original horiginal id hid
    exact mem_map.mpr ⟨snapshot, hsnapshot, hsame⟩
  have hmeets : Prog.Meets (applyRollupClustersLocked env codec size uuid request) d _ _ _ :=
    applyRollup_meets hserde hs hmembers hupdates hdigest
  constructor
  · intro hnone
    obtain ⟨files, transactions⟩ := d
    cases hnone
    exact hs
  · cases hr : (applyRollupClustersLocked env codec size uuid request d).result with
    | ok returned => exact ⟨returned, rfl, hmeets.ok returned hr⟩
    | error e => exact (hmeets.error e hr).elim

/-! ## An enrichment of a supplied member, and a rollup of two -/

namespace Sample

/-- The sample record once it cites a knowledge page. -/
def enriched : Recommendation :=
  { record with
    knowledgeEvidence :=
      [{ pageId := "p"
         title := "Builds"
         status := "active"
         bundleVersion := "1"
         sha256 := "78b445d9f7d1a7cf6b5e7b1cbf40dd85a818b190fecd8df649d32001e907637f"
         excerpt := "Run make." }]
    updatedAt := "2026-01-02T00:00:00Z" }

def second : Recommendation := { record with id := "b", dedupeKey := "l" }

def rollupId : String :=
  "rollup:8fb20ef63ced4145fc2e983ffe597d1dcff39154c3bf21f0fa9dde6a0c50fdc9"

/-- The parent that the two records get. -/
def rollup : Recommendation :=
  { record with
    id := rollupId
    chainId := rollupId
    chainDepth := 1
    title := "Automate the build"
    summary := "Run the build from one command"
    reason := ["Bounded semantic rollup of 2 exact recommendation families; " ++
      "derived evidence and counts remain sidecar-owned."]
    dedupeKey := "rollup:v1:" ++ rollupId
    createdAt := "2026-01-02T00:00:00Z"
    updatedAt := "2026-01-02T00:00:00Z"
    workflowImprovement :=
      { record.workflowImprovement with proposedImprovement := "Run the build from one command" }
    rollupMemberIds := ["a", "b"]
    rollupMemberDedupeKeys := ["k", "l"]
    rollupGeneration := some 1
    proposedChange := some
      { summary := "Document the build step"
        targets := [⟨"docs/build.md", .edit, "Describe the step", false⟩]
        verification := "Read it" } }

def familyText (family : RollupFamilySnapshot) : Bytes :=
  utf8 ("\x7b\"recommendationId\":\"" ++ family.recommendationId ++ "\",\"dedupeKey\":\""
    ++ family.dedupeKey ++ "\",\"targetSurface\":\"test\",\"problemArea\":null,\"title\":\"\","
    ++ "\"summary\":\"\",\"representativeEvidence\":[],\"sourceSessionIds\":[],"
    ++ "\"activeParentId\":null,\"activeParentMemberIds\":[],\"evidenceSnapshotHash\":\""
    ++ family.evidenceSnapshotHash ++ "\"\x7d")

/-- The record's family, as the model is shown it. -/
def family : RollupFamilySnapshot where
  recommendationId := "a"
  dedupeKey := "k"
  targetSurface := .test
  problemArea := none
  title := ""
  summary := ""
  representativeEvidence := []
  sourceSessionIds := []
  activeParentId := none
  activeParentMemberIds := []
  evidenceSnapshotHash := "fa9ef44e5c7d5d40a6c0ea550fcd8dd830c5f647b4be13eae47900cf85bd6fc8"

def secondFamily : RollupFamilySnapshot :=
  { family with
    recommendationId := "b"
    dedupeKey := "l"
    evidenceSnapshotHash := "9e4fe3f191bd5293cf9a180586423f8aae7dcf1fda8c6826b8f8b2075a4ec3d9" }

def familyCodec : RollupCodec := { rollupCodec with snapshot := familyText }

/-- The SHA-256 of the texts of the samples. -/
def hashes : List (Bytes × String) :=
  [(recordText record, digest),
    (recordText enriched, "11cbac9a7e46b55044f39cc7d34ce091dc1ba41ebf46a2ae37c6cec1f4007182"),
    (recordText second, "87fdf949c191c0cab6603ed2f30f82e07c56daf5e0377f751bb2ae62cb1c5eda"),
    (recordText (rolledUpUnder rollupId record),
      "e27013f66c617130065cc2ba309a052600d01bf363583f3e1c2b30b54a0bd288"),
    (recordText (rolledUpUnder rollupId second),
      "90d34605195512238a7b011962c5add74d9a05388db570348d910f7916e747ef"),
    (recordText rollup, "fd27897abf8874f13de487266414bf75e98f6bc37e21d2b76a50653c7df5d8b0"),
    (familyText { family with evidenceSnapshotHash := "" }, family.evidenceSnapshotHash),
    (familyText { secondFamily with evidenceSnapshotHash := "" }, secondFamily.evidenceSnapshotHash),
    (utf8 "a\x00b\x00", "8fb20ef63ced4145fc2e983ffe597d1dcff39154c3bf21f0fa9dde6a0c50fdc9")]

def sampleDigests : Digests :=
  { env.digests with
    sha256 := fun bytes => ((hashes.find? (fun hash => hash.1 = bytes)).map Prod.snd).getD "" }

/-- The replacements of the two calls: what is there and what is written. -/
def enrichmentReplacements : TextMap Replacement :=
  (∅ : TextMap Replacement).insert "a" ⟨some (recordText record), some (recordText enriched)⟩

def rollupReplacements : TextMap Replacement :=
  (((∅ : TextMap Replacement).insert "a"
    ⟨some (recordText record), some (recordText (rolledUpUnder rollupId record))⟩).insert "b"
    ⟨some (recordText second), some (recordText (rolledUpUnder rollupId second))⟩).insert rollupId
    ⟨none, some (recordText rollup)⟩

def manifestOf (replacements : TextMap Replacement) (committed : Bool) :
    RollupTransactionManifest :=
  transactionManifest ⟨sampleDigests, env.serde⟩ replacements.toList committed

def listedTexts : List (Recommendation × Bytes) :=
  [record, enriched, second, rolledUpUnder rollupId record, rolledUpUnder rollupId second,
    rollup].map (fun r => (r, recordText r))

def listedManifests : List (RollupTransactionManifest × Bytes) :=
  [manifestOf enrichmentReplacements false, manifestOf enrichmentReplacements true,
    manifestOf rollupReplacements false, manifestOf rollupReplacements true].map
    (fun m => (m, manifestText m))

noncomputable def listedStore : Env where
  digests := sampleDigests
  serde :=
    { encode := encodeListed listedTexts
      decode := decodeListed listedTexts
      encodeManifest := encodeListed listedManifests
      decodeManifest := decodeListed listedManifests }

theorem listedStore_lawful : listedStore.serde.Lawful where
  decode_encode := decodeListed_encodeListed (by decide +kernel) (by decide +kernel)
  decodeManifest_encode := decodeListed_encodeListed (by decide +kernel) (by decide +kernel)

def enrichmentFiles : Files := (∅ : Files).insert "a.json" (recordText record)

/-- No clusters, one supplied family, and an update that enriches its record. -/
def enrichment : RollupRequest where
  workspace := ⟨"w", 0⟩
  workspaceInstance := 0
  suppliedSnapshots := [family]
  clusters := []
  generation := 1
  legacyUpdates := [enriched]
  now := "2026-01-02T00:00:00Z"

def rollupFiles : Files := enrichmentFiles.insert "b.json" (recordText second)

def rollupCluster : RollupCluster where
  memberRecommendationIds := ["a", "b"]
  targetSurface := .test
  title := "Automate the build"
  summary := "Run the build from one command"
  proposedChange :=
    { summary := "Document the build step"
      targets := [⟨"docs/build.md", .edit, "Describe the step", false⟩]
      verification := "Read it" }

/-- One cluster of the two supplied families. -/
def rollupRequest : RollupRequest :=
  { enrichment with
    suppliedSnapshots := [family, secondFamily]
    clusters := [rollupCluster]
    legacyUpdates := [] }

end Sample

open Sample

/-- A call that enriches a supplied member changes the knowledge it cites: the
call returns `true`, the member was there without the page and is there with it. -/
theorem enrichment_changes_evidence :
    validateRollupClusters familyCodec enrichment.suppliedSnapshots [] = .ok [] ∧
    (applyRollupClustersLocked listedStore familyCodec List.length "0"
      enrichment ⟨enrichmentFiles, none⟩).result = .ok true ∧
    Contains listedStore enrichmentFiles record ∧
    Contains listedStore (applyRollupClustersLocked listedStore
      familyCodec List.length "0" enrichment
        ⟨enrichmentFiles, none⟩).last.files enriched ∧
    record.id = Sample.family.recommendationId ∧
    enriched.id = Sample.family.recommendationId ∧
    enriched.knowledgeEvidence ≠ record.knowledgeEvidence := by
  have hbefore : readAll listedStore enrichmentFiles = .ok [record] := by
    decide +kernel
  have hrun : (applyRollupClustersLocked listedStore familyCodec List.length "0"
        enrichment ⟨enrichmentFiles, none⟩).result = .ok true ∧
      readAll listedStore (applyRollupClustersLocked listedStore familyCodec
        List.length "0" enrichment ⟨enrichmentFiles, none⟩).last.files =
          .ok [enriched] := by
    decide +kernel
  refine ⟨by decide +kernel, hrun.1, ?_, ?_, rfl, rfl, by decide⟩
  · exact (contains_iff hbefore _).mpr (mem_singleton.mpr rfl)
  · exact (contains_iff hrun.2 _).mpr (mem_singleton.mpr rfl)

/-- Two proposed records and one cluster: the call gives them a parent, and each is rolled
up under it. -/
theorem two_families_rolled_up :
    readAll listedStore (applyRollupClustersLocked listedStore familyCodec
        List.length "0" rollupRequest ⟨rollupFiles, none⟩).last.files =
      .ok [rolledUpUnder rollupId record, rolledUpUnder rollupId second,
        rollup] ∧
    RollupOutcome listedStore rollupRequest rollupFiles
      (applyRollupClustersLocked listedStore familyCodec List.length "0"
        rollupRequest ⟨rollupFiles, none⟩).last.files := by
  have hrun : (applyRollupClustersLocked listedStore familyCodec List.length "0"
        rollupRequest ⟨rollupFiles, none⟩).result = .ok true ∧
      readAll listedStore (applyRollupClustersLocked listedStore familyCodec
        List.length "0" rollupRequest ⟨rollupFiles, none⟩).last.files =
          .ok [rolledUpUnder rollupId record,
            rolledUpUnder rollupId second, rollup] := by
    decide +kernel
  refine ⟨hrun.2, ?_⟩
  have hapart : ((recordsWithHashes listedStore rollupFiles).toOption.bind
      (fun listed => rollupGraph listedStore.digests
        (rollupRequest.inputs List.length listed) [])).all (fun graph =>
          (values graph.working).all (fun r =>
            (rollupFiles[recommendationFilename r.id]?).all (fun bytes =>
              decide (listedStore.digests.sha256 bytes =
                listedStore.digests.sha256 (listedStore.serde.encode r) →
                  bytes = listedStore.serde.encode r)))) = true := by
    decide +kernel
  obtain ⟨-, returned, hreturned, htrue, -⟩ := rollup_application_atomic listedStore
    listedStore_lawful familyCodec List.length "0" rollupRequest
    ⟨rollupFiles, none⟩ ⟨rollupFiles, none⟩ rfl
    [{ buildCluster ["b", "a"] with targetSurface := .test }] [rollupCluster]
    (by decide +kernel) (fun cluster => cluster.proposedChange) rfl
    (fun update hupdate => nomatch hupdate)
    (by
      intro listed graph hlisted hgraph r hr bytes hfile
      have hbind : (recordsWithHashes listedStore rollupFiles).toOption.bind
          (fun listed => rollupGraph listedStore.digests
            (rollupRequest.inputs List.length listed) []) = some graph := by
        rw [hlisted]
        exact hgraph
      rw [hbind, Option.all_some, all_eq_true] at hapart
      have hfiles := hapart r hr
      rw [hfile, Option.all_some] at hfiles
      exact of_decide_eq_true hfiles)
  rw [hrun.1, Except.ok.injEq] at hreturned
  exact htrue hreturned.symm

end Orkworksd.Taskmaster
