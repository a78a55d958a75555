import Orkworksd.Taskmaster.RefreshAccept

/- Completion packets and the workflow refresh.

   A session attaches a completion packet to a proposed card
   (`report_completion_packet`); the evaluator rebuilds the card of every family
   it evaluates and, unlike the evidence a user attached, does not carry the packet
   over. `refresh_keeps_packet_iff` says which cards lose theirs. -/
namespace Orkworksd.Taskmaster
open Lib

/-- The record is the newest of a family with enough observations, or a family
that proposes a new record gives it this record's id. -/
def Rewritten (digests : Digests) (observations : List WorkflowObservation) (records : Records)
    (r : Recommendation) : Prop :=
  ∃ f ∈ families observations,
    (f.eligible = true ∧ prior (listing records) f.dedupeKey = some r) ∨
    (f.due (lineage (listing records) f.dedupeKey) = true ∧
      (lineage (listing records) f.dedupeKey).kept = none ∧
      f.freshId digests (lineage (listing records) f.dedupeKey) = r.id)

namespace Pass

variable {P : Pass} {r : Recommendation}

theorem rewritten_iff (hk : Keyed P.records) (hstored : P.records[r.id]? = some r)
    (hstatus : r.status = .proposed) :
    Rewritten P.digests P.observations P.records r ↔ ∃ f, P.Due f ∧ (P.proposal f).id = r.id := by
  constructor
  · rintro ⟨f, hf, ⟨heligible, hprior⟩ | ⟨hdue, hkept, hid⟩⟩
    · have hkept := kept_of_proposed hprior hstatus
      exact ⟨f, due_of_kept hk hf heligible hkept, proposal_id_kept hkept⟩
    · exact ⟨f, ⟨hf, hdue⟩, (proposal_id_new hkept).trans hid⟩
  · rintro ⟨f, hf, hid⟩
    refine ⟨f, hf.1, ?_⟩
    cases hkept : (P.lineage f).kept with
    | none => exact .inr ⟨hf.2, hkept, (proposal_id_new hkept).symm.trans hid⟩
    | some k =>
      obtain ⟨hk', -⟩ := kept_stored hk hkept
      rw [← @proposal_id_kept P.digests P.context f _ _ hkept] at hk'
      change P.records[(P.proposal f).id]? = some k at hk'
      rw [hid, hstored, Option.some.injEq] at hk'
      rw [← hk'] at hkept
      exact .inl ⟨hf.eligible, (standing hk f).kept_prior hkept⟩

theorem packet_of_unprojected {a b : Recommendation} (h : unprojected a = unprojected b) :
    a.completionPacket = b.completionPacket := by
  have hfield : (unprojected a).completionPacket = (unprojected b).completionPacket := by rw [h]
  exact hfield

/-- The packet in the graph that is handed to the store. -/
theorem next_packet (hk : Keyed P.records) (hstored : P.records[r.id]? = some r) :
    ∃ r', P.next[r.id]? = some r' ∧
      ((∃ f, P.Due f ∧ (P.proposal f).id = r.id) → r'.completionPacket = none) ∧
      ((∀ f, P.Due f → (P.proposal f).id ≠ r.id) → r'.completionPacket = r.completionPacket) := by
  have hsame := next_unprojected hk r.id
  rcases P.put_cases r.id with ⟨f, hf, hid, hget⟩ | ⟨hnot, hget⟩
  · rw [hget, Option.map_some, Option.map_eq_some_iff] at hsame
    obtain ⟨r', hr', heq⟩ := hsame
    exact ⟨r', hr', fun _ => packet_of_unprojected heq, fun h => absurd hid (h f hf)⟩
  · rw [hget, hstored, Option.map_some, Option.map_eq_some_iff] at hsame
    obtain ⟨r', hr', heq⟩ := hsame
    exact ⟨r', hr', fun ⟨f, hf, hid⟩ => absurd hid (hnot f hf), fun _ => packet_of_unprojected heq⟩

/-- The card keeps its packet: nothing in the store could be read, or the refresh does
not rewrite the card. From a regular store, which takes the graph of the refresh, a card
that is rewritten loses it. -/
theorem refresh_keeps_packet_iff (P : Pass) (hkeyed : Keyed P.records) (r : Recommendation)
    (hstored : P.records[r.id]? = some r) (hstatus : r.status = .proposed)
    (packet : CompletionPacket) (hpacket : r.completionPacket = some packet) :
    (readRecords P.digests P.records ≠ .ok () ∨ ¬ Rewritten P.digests P.observations P.records r →
      (P.after[r.id]?).bind (·.completionPacket) = some packet) ∧
    (P.Regular → ((P.after[r.id]?).bind (·.completionPacket) = some packet ↔
      ¬ Rewritten P.digests P.observations P.records r)) := by
  have hrefused : (P.records[r.id]?).bind (·.completionPacket) = some packet := by
    rw [hstored]
    exact hpacket
  obtain ⟨r', hr', hlost, hkept⟩ := next_packet hkeyed hstored
  rw [rewritten_iff hkeyed hstored hstatus]
  have hsafe : (¬ ∃ f, P.Due f ∧ (P.proposal f).id = r.id) →
      (P.next[r.id]?).bind (·.completionPacket) = some packet := by
    intro hnot
    rw [hr', Option.bind_some, hkept (fun f hf hid => hnot ⟨f, hf, hid⟩), hpacket]
  constructor
  · intro h
    cases hresult : P.result with
    | error e => rw [after_of_error hresult, hrefused]
    | ok next =>
      obtain ⟨hread, -⟩ := result_cases hresult
      rw [after_of_result hresult, (Taken.of_result hkeyed hresult).2]
      exact hsafe (h.resolve_left (fun hne => hne hread))
  · intro hregular
    rw [after_of_result hregular.accepted]
    refine ⟨fun h hrewritten => ?_, hsafe⟩
    rw [hr', Option.bind_some, hlost hrewritten] at h
    cases h

end Pass

namespace Sample

/-- The digests of the samples; `stable_id` has its real values there. -/
def evaluatorDigests : Digests where
  sha256 := fun _ => "e3b0c44298fc1c149afbf4c8996fb92427ae41e4649b934ca495991b7852b855"
  stableId := fun _ ids =>
    if ids = ["o1", "o2"] then "efe86b37d0691ffd"
    else if ids = ["o1", "o2", "o3"] then "67e95ba80e89f68d"
    else "8ce1a833bd664310"
  evidenceJson := fun _ => []
  actionJson := fun _ => []
  isUuid := fun _ => false

def evidenceSize (evidence : List WorkflowObservationEvidence) : Nat := 400 * evidence.length

def observation (id : String) (sequence : Nat) : WorkflowObservation where
  id := id
  sequence := sequence
  sessionId := "s"
  observedAt := "2026-01-01T00:00:00Z"
  kind := .obstacle
  description := "The build needs a manual step."
  evidence := "make failed"
  problemArea := none
  reportedImpact := .medium
  source := .agent
  confidence := 1
  fingerprint := "fp"

def at1 : EvaluationContext := ⟨"/w", "2026-01-01T00:00:01+00:00"⟩
def at2 : EvaluationContext := ⟨"/w", "2026-01-01T00:00:02+00:00"⟩

/-- The card of a first refresh, with a packet its session attached later. -/
def packet : CompletionPacket where
  schemaVersion := 1
  evidenceVersion := 1
  packetId := "p"
  sourceSessionId := "s"
  observedAt := "2026-01-01T00:00:01Z"
  provenance :=
    { sourceSessionId := "s", workspaceId := "/w", workspaceSnapshotId := "r"
      observedAt := "2026-01-01T00:00:01Z" }
  subject :=
    { workspaceId := "/w", scope := "build", snapshotId := "r", attribution := .unambiguous
      changedPaths := ["Makefile"] }
  verification := none
  review := none
  missingEvidence := []
  conflictingEvidence := []
  action := { prompt := "Verify the change.", model := none, scope := "build", role := .verification }
  readiness := .verificationNeeded
  revision := 1
  evidenceFingerprint := "e3b0c44298fc1c149afbf4c8996fb92427ae41e4649b934ca495991b7852b855"
  approval := none
  supersedesPacketId := none
  lineage := []
  completionIdempotencyKey := none

def observedFamily : Family := family [observation "o1" 1, observation "o2" 2] "fp"

def packetCard : Recommendation :=
  { observedFamily.proposal evaluatorDigests at1 ⟨none, none, none⟩ with
    completionPacket := some packet }

def packetStore : Records := (∅ : Records).insert packetCard.id packetCard

theorem packetStore_keyed : Keyed packetStore :=
  Keyed.insert (fun id r h => by rw [TextMap.get_empty] at h; cases h) packetCard

/-- One observation of the card's family and two of another, which get a card. -/
def otherPass : Pass where
  digests := evaluatorDigests
  size := evidenceSize
  context := at2
  observations := [observation "o1" 1, { observation "g1" 2 with fingerprint := "gp" },
    { observation "g2" 3 with fingerprint := "gp" }]
  records := packetStore

end Sample

open Sample

/-- A refresh with one observation of the card's family makes the card of another family
and leaves the packet alone. -/
theorem other_family_keeps_packet :
    otherPass.after.keys = ["recommendation-8ce1a833bd664310", packetCard.id] ∧
    (otherPass.after[packetCard.id]?).bind (·.completionPacket) = some packet := by
  refine ⟨by decide +kernel, (Pass.refresh_keeps_packet_iff otherPass
    packetStore_keyed packetCard TextMap.get_insert_self rfl packet rfl).1
      (.inr ?_)⟩
  -- only the other family has enough observations, and its card gets another id
  have hothers : (families otherPass.observations).all (fun f => !f.eligible ||
      ((prior (listing packetStore) f.dedupeKey).isNone &&
        f.freshId evaluatorDigests (lineage (listing packetStore) f.dedupeKey) !=
          packetCard.id)) = true := by decide +kernel
  rintro ⟨f, hf, h⟩
  have hother := List.all_eq_true.mp hothers f hf
  have heligible : f.eligible = true := by
    rcases h with ⟨heligible, -⟩ | ⟨hdue, -⟩
    · exact heligible
    · simp only [Family.due, Bool.and_eq_true] at hdue
      exact hdue.1.1.1
  rw [heligible, Bool.not_true, Bool.false_or, Bool.and_eq_true, bne_iff_ne] at hother
  rcases h with ⟨-, hprior⟩ | ⟨-, -, hid⟩
  · change prior (listing packetStore) f.dedupeKey = _ at hprior
    rw [hprior] at hother
    cases hother.1
  · exact hother.2 hid

/-- A valid store with one proposed card that carries a packet: refreshing it with
the observations the card was made of drops the packet. -/
theorem refreshed_card_loses_packet :
    validateGraphRecords evaluatorDigests (values packetStore) = .ok () ∧
    validateRecommendation evaluatorDigests packetCard = .ok () ∧
    packetStore[packetCard.id]? = some packetCard ∧
    packetCard.recommendationType = .improveWorkflow ∧
    packetCard.status = .proposed ∧
    packetCard.completionPacket = some packet ∧
    ((refreshWorkflowRecommendations evaluatorDigests evidenceSize at2
      [observation "o1" 1, observation "o2" 2]
      packetStore)[packetCard.id]?).map (·.completionPacket) = some none := by
  refine ⟨?_, ?_, TextMap.get_insert_self, rfl, rfl, rfl, ?_⟩
  · decide
  · decide +kernel
  · decide +kernel

end Orkworksd.Taskmaster
