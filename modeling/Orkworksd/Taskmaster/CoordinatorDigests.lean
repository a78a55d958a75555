import Orkworksd.Lib.JsonOrder
import Orkworksd.Taskmaster.Coordinator

/- Persisted plans are read back, and the digests tell what was digested.

   Every record is read out of the value it was written as (`read_value`), in any order of
   its members, and the canonical text of a value tells the value up to that order. So one
   digest has one content, as far as SHA-256 has no collision between the two texts that are
   compared (`NoCollision`).

   Main results: `canonical_eq_iff_reordered`, `plans_round_trip_and_bind`. -/
namespace Orkworksd.Coordinator
open Lib List

/-! ## Canonical text -/

theorem joined_print (first : Bool) (members : Members) :
    joined first (members.map (fun m => (m.1, m.2.print))) = Json.printMembers first members := by
  induction members generalizing first with
  | nil => rfl
  | cons member members ih =>
    obtain ⟨key, value⟩ := member
    rw [map_cons, joined, Json.printMembers, ih]

mutual
theorem canonicalValue_eq (v : Json) : canonicalValue v = v.sorted.print := by
  match v with
  | .null => rfl
  | .bool _ => rfl
  | .number _ => rfl
  | .string _ => rfl
  | .array items =>
    rw [canonicalValue, canonicalItems_eq true items, Json.sorted, Json.print]
  | .object members =>
    have hsort : (canonicalMembers members).insertionSort (fun a b => a.1 ≤ b.1) =
        (Json.sortMembers (Json.sortedMembers members)).map (fun m => (m.1, m.2.print)) := by
      rw [canonicalMembers_eq members, Json.sortMembers]
      exact (map_insertionSort (fun a b : String × Json => a.1 ≤ b.1)
        (fun a b : String × List Char => a.1 ≤ b.1) _ _ (fun _ _ _ _ => Iff.rfl)).symm
    rw [canonicalValue, hsort, joined_print, Json.sorted, Json.print]

theorem canonicalItems_eq (first : Bool) (items : List Json) :
    canonicalItems first items = Json.printItems first (Json.sortedItems items) := by
  match items with
  | [] => rfl
  | item :: items =>
    rw [canonicalItems, Json.sortedItems, Json.printItems, canonicalValue_eq item,
      canonicalItems_eq false items]

theorem canonicalMembers_eq (members : List (String × Json)) :
    canonicalMembers members = (Json.sortedMembers members).map (fun m => (m.1, m.2.print)) := by
  match members with
  | [] => rfl
  | (key, value) :: members =>
    rw [canonicalMembers, Json.sortedMembers, map_cons, canonicalValue_eq value,
      canonicalMembers_eq members]
end

theorem canonical_inj {v w : Json} (hv : v.Numeric) (hw : w.Numeric)
    (h : canonicalJsonBytes v = canonicalJsonBytes w) : v.sorted = w.sorted := by
  unfold canonicalJsonBytes at h
  rw [canonicalValue_eq, canonicalValue_eq] at h
  exact Json.bytes_inj (Json.sorted_numeric v hv) (Json.sorted_numeric w hw) h

/-- A `serde_json::Value`: an object has each of its keys once, and a number is the text that
serde_json writes for it, which is another for every integer, signed or not, and for every
finite float. -/
structure Value where
  json : Json
  distinct : json.Distinct
  numeric : json.Numeric

/-- Two values have the same canonical bytes exactly when they are equal up to the order of
keys at every depth, a float zero being told from the negative one. -/
theorem canonical_eq_iff_reordered (v w : Value) :
    canonicalJsonBytes v.json = canonicalJsonBytes w.json ↔ Json.Reordered v.json w.json := by
  constructor
  · intro h
    exact Json.reordered_of_sorted _ _ (canonical_inj v.numeric w.numeric h)
  · intro h
    have hsorted := Json.sorted_of_reordered h v.distinct
    calc canonicalJsonBytes v.json = JsonText.encode v.json.sorted.print := by
          rw [canonicalJsonBytes, canonicalValue_eq]
      _ = JsonText.encode w.json.sorted.print := by rw [hsorted]
      _ = canonicalJsonBytes w.json := by rw [canonicalJsonBytes, canonicalValue_eq]

/-- Equality of serde_json holds the two float zeros equal, and their bytes differ. -/
theorem canonical_tells_zeros :
    ¬ ∀ v w : Value, canonicalJsonBytes v.json = canonicalJsonBytes w.json ↔
      Json.Reordered v.json.positiveZeros w.json.positiveZeros := by
  intro h
  have hbytes := (h ⟨.number "0.0", trivial, by simp [Json.Numeric, Json.isNumberChar]⟩
    ⟨.number "-0.0", trivial, by simp [Json.Numeric, Json.isNumberChar]⟩).mpr (.number "0.0")
  revert hbytes
  decide +kernel

/-! ## Records are read back -/

@[simp] theorem u32_ofNat (n : UInt32) : u32 (Json.ofNat n.toNat) = some n := by
  rw [u32, Json.natural_ofNat n.toNat_lt, Option.map_some, UInt32.ofNat_toNat]

@[simp] theorem u64_ofNat (n : UInt64) : u64 (Json.ofNat n.toNat) = some n := by
  rw [u64, Json.natural_ofNat n.toNat_lt, Option.map_some, UInt64.ofNat_toNat]

theorem u32_orderless : Json.Orderless u32 := fun v =>
  congrArg (Option.map UInt32.ofNat) (Json.natural_orderless _ v)

theorem u64_orderless : Json.Orderless u64 := fun v =>
  congrArg (Option.map UInt64.ofNat) (Json.natural_orderless _ v)

@[simp] theorem nullable_text (o : Option String) :
    Json.nullable Json.text (Json.ofOption Json.string o) = some o := by
  cases o <;> rfl

theorem attribution_read (a : Attribution) : Attribution.read a.value = some a := by
  cases a <;> rfl

theorem attribution_orderless : Json.Orderless Attribution.read := by
  intro v
  rw [Attribution.read, Json.variant_orderless]
  rfl

variable (s : WorkspaceChangeSubject)

theorem subject_names : Json.Names subjectNames s.members where
  keys := rfl
  distinct := by decide

theorem subject_read : WorkspaceChangeSubject.read s.value = some s := by
  have h := subject_names s
  rw [WorkspaceChangeSubject.read, WorkspaceChangeSubject.value, Json.fields_names h]
  simp only [Json.field_at h 0 rfl, Json.field_at h 1 rfl, Json.field_at h 2 rfl,
    Json.field_at h 3 rfl, Json.text, Json.list_texts, attribution_read]
  rfl

variable (e : PlanEvidence)

theorem evidence_names : Json.Names evidenceNames e.members where
  keys := rfl
  distinct := by decide

theorem evidence_read : PlanEvidence.read e.value = some e := by
  have h := evidence_names e
  rw [PlanEvidence.read, PlanEvidence.value, Json.fields_names h]
  simp only [Json.field_at h 0 rfl, Json.field_at h 1 rfl, Json.field_at h 2 rfl, u32_ofNat,
    Json.text, Json.list_texts]
  rfl

theorem role_read (r : Role) : Role.read r.value = some r := by
  cases r <;> rfl

variable (n : PlanNode)

theorem node_names : Json.Names nodeNames n.members where
  keys := rfl
  distinct := by decide

theorem node_read : PlanNode.read n.value = some n := by
  have h := node_names n
  rw [PlanNode.read, PlanNode.value, Json.fields_names h]
  simp only [Json.field_at h 0 rfl, Json.field_at h 1 rfl, Json.field_at h 2 rfl,
    Json.field_at h 3 rfl, Json.field_at h 4 rfl, Json.field_at h 5 rfl, Json.field_at h 6 rfl,
    Json.field_at h 7 rfl, Json.field_at h 8 rfl, Json.field_at h 9 rfl, Json.field_at h 10 rfl,
    Json.field_at h 11 rfl, Json.field_at h 12 rfl, Json.field_at h 13 rfl,
    Json.field_at h 14 rfl, Json.text, Json.list_texts, nullable_text, role_read, u32_ofNat,
    u64_ofNat]
  rfl

variable (p : PlanProposalInput)

theorem input_names : Json.Names materialNames p.members where
  keys := rfl
  distinct := by decide

theorem input_read {names : List String} {m : Members} (h : Json.Names names m)
    (p : PlanProposalInput)
    (hat : ∀ (i : Nat) (entry : String × Json), p.members[i]? = some entry → m[i]? = some entry) :
    PlanProposalInput.readMembers m = some p := by
  have hnodes : Json.list PlanNode.read (.array (p.nodes.map PlanNode.value)) = some p.nodes :=
    Json.list_map node_read p.nodes
  rw [PlanProposalInput.readMembers]
  simp only [Json.field_at h 0 (hat 0 _ rfl), Json.field_at h 1 (hat 1 _ rfl),
    Json.field_at h 2 (hat 2 _ rfl), Json.field_at h 3 (hat 3 _ rfl),
    Json.field_at h 4 (hat 4 _ rfl), Json.field_at h 5 (hat 5 _ rfl),
    Json.optional_at h 6 (hat 6 _ rfl), Json.field_at h 7 (hat 7 _ rfl),
    Json.field_at h 8 (hat 8 _ rfl), Json.field_at h 9 (hat 9 _ rfl),
    Json.field_at h 10 (hat 10 _ rfl), Json.field_at h 11 (hat 11 _ rfl), Json.text,
    nullable_text, subject_read, evidence_read, hnodes, u32_ofNat, u64_ofNat]
  rfl

theorem plan_names (p : PlanRevision) : Json.Names persistedNames p.members where
  keys := rfl
  distinct := by decide

/-- The fields of a plan, as the disk has them. -/
def PlanRevision.persisted (p : PlanRevision) : PersistedPlanRevision :=
  { p.toPlanProposalInput with planDigest := p.planDigest, evidenceDigest := p.evidenceDigest }

theorem plan_read (p : PlanRevision) : PersistedPlanRevision.read p.value = some p.persisted := by
  have h := plan_names p
  have hinput := input_read h p.toPlanProposalInput (by
    intro i entry hi
    have hlt := (List.getElem?_eq_some_iff.mp hi).1
    rw [PlanRevision.members, List.getElem?_append_left hlt]
    exact hi)
  rw [PersistedPlanRevision.read, PlanRevision.value, Json.fields_names h]
  simp only [hinput, Json.field_at h 12 rfl, Json.field_at h 13 rfl, Json.text]
  rfl

/-! ## In any order of the members -/

theorem subject_orderless : Json.Orderless WorkspaceChangeSubject.read := by
  refine Json.fields_orderless (fun m m' hm => ?_) 0
  simp only [Json.field_sorted hm Json.text_orderless,
    Json.field_sorted hm (Json.list_orderless Json.text_orderless),
    Json.field_sorted hm attribution_orderless]

theorem evidence_orderless : Json.Orderless PlanEvidence.read := by
  refine Json.fields_orderless (fun m m' hm => ?_) 0
  simp only [Json.field_sorted hm u32_orderless, Json.field_sorted hm Json.text_orderless,
    Json.field_sorted hm (Json.list_orderless Json.text_orderless)]

theorem role_several {m : Members} (h : m.length ≠ 1) : Role.read (.object m) = none := by
  match m with
  | [] => rfl
  | [_] => exact absurd rfl h
  | _ :: _ :: _ => rfl

theorem role_orderless : Json.Orderless Role.read := by
  intro v
  cases v with
  | object m =>
    by_cases h : m.length = 1
    · match m with
      | [(tag, content)] =>
        show Role.read (.object [(tag, content.sorted)]) = _
        cases content <;> rfl
    · rw [Json.sorted, role_several h, role_several (by rwa [Json.length_sorted])]
  | _ => rfl

theorem node_orderless : Json.Orderless PlanNode.read := by
  refine Json.fields_orderless (fun m m' hm => ?_) 0
  simp only [Json.field_sorted hm Json.text_orderless,
    Json.field_sorted hm (Json.nullable_orderless Json.text_orderless),
    Json.field_sorted hm (Json.list_orderless Json.text_orderless),
    Json.field_sorted hm role_orderless, Json.field_sorted hm u32_orderless,
    Json.field_sorted hm u64_orderless]

theorem input_orderless :
    Json.Orderless (Json.record materialNames PlanProposalInput.readMembers) := by
  refine Json.record_orderless fun m m' hm => ?_
  simp only [PlanProposalInput.readMembers, Json.field_sorted hm Json.text_orderless,
    Json.optional_sorted hm Json.text_orderless, Json.field_sorted hm subject_orderless,
    Json.field_sorted hm evidence_orderless,
    Json.field_sorted hm (Json.list_orderless node_orderless),
    Json.field_sorted hm u32_orderless, Json.field_sorted hm u64_orderless]

/-! ## One text, one content -/

theorem subject_numeric : s.value.Numeric := by
  have hattribution : s.attribution.value.Numeric := by
    cases s.attribution <;> trivial
  exact ⟨trivial, trivial, Json.texts_numeric _, hattribution, trivial⟩

theorem evidence_numeric : e.value.Numeric :=
  ⟨Json.ofNat_numeric _, trivial, Json.texts_numeric _, trivial⟩

theorem text_option_numeric (o : Option String) : (Json.ofOption Json.string o).Numeric := by
  cases o <;> trivial

theorem node_numeric : n.value.Numeric := by
  have hrole : n.role.value.Numeric := by
    cases n.role <;> simp [Role.value, Json.Numeric, Json.NumericMembers]
  exact ⟨trivial, text_option_numeric _, trivial, Json.texts_numeric _, trivial, trivial, trivial,
    Json.texts_numeric _, hrole, Json.texts_numeric _, Json.texts_numeric _,
    Json.texts_numeric _, Json.ofNat_numeric _, Json.ofNat_numeric _, trivial, trivial⟩

theorem input_numeric : (Json.object p.members).Numeric :=
  ⟨Json.ofNat_numeric _, trivial, trivial, trivial, Json.ofNat_numeric _, Json.ofNat_numeric _,
    text_option_numeric _, subject_numeric _, evidence_numeric _,
    Json.items_numeric node_numeric _, Json.ofNat_numeric _, Json.ofNat_numeric _, trivial⟩

theorem evidenceMaterial_numeric : p.evidenceMaterial.Numeric :=
  ⟨Json.ofNat_numeric _, subject_numeric _, evidence_numeric _, trivial⟩

theorem content_of_canonical {p q : PlanProposalInput}
    (h : canonicalJsonBytes (.object p.members) = canonicalJsonBytes (.object q.members)) :
    p = q := by
  have hsorted := canonical_inj (input_numeric p) (input_numeric q) h
  have hread : ∀ r : PlanProposalInput,
      Json.record materialNames PlanProposalInput.readMembers (Json.object r.members).sorted =
        some r := by
    intro r
    rw [input_orderless, Json.record_names (input_names r)]
    exact input_read (input_names r) r (fun _ _ hi => hi)
  have hsome := hread p
  rw [hsorted, hread q] at hsome
  exact (Option.some.inj hsome).symm

theorem evidence_of_canonical {p q : PlanProposalInput}
    (h : canonicalJsonBytes p.evidenceMaterial = canonicalJsonBytes q.evidenceMaterial) :
    p.subject = q.subject ∧ p.evidence = q.evidence := by
  have hsorted := canonical_inj (evidenceMaterial_numeric p) (evidenceMaterial_numeric q) h
  have hitems : [(Json.ofNat p.evidence.version.toNat).sorted, p.subject.value.sorted,
      p.evidence.value.sorted] = [(Json.ofNat q.evidence.version.toNat).sorted,
      q.subject.value.sorted, q.evidence.value.sorted] := Json.array.inj hsorted
  obtain ⟨-, hrest⟩ := List.cons.inj hitems
  obtain ⟨hsubject, hrest⟩ := List.cons.inj hrest
  obtain ⟨hevidence, -⟩ := List.cons.inj hrest
  constructor
  · apply Option.some.inj
    calc some p.subject = WorkspaceChangeSubject.read p.subject.value.sorted := by
          rw [subject_orderless, subject_read]
      _ = WorkspaceChangeSubject.read q.subject.value.sorted := by rw [hsubject]
      _ = some q.subject := by rw [subject_orderless, subject_read]
  · apply Option.some.inj
    calc some p.evidence = PlanEvidence.read p.evidence.value.sorted := by
          rw [evidence_orderless, evidence_read]
      _ = PlanEvidence.read q.evidence.value.sorted := by rw [hevidence]
      _ = some q.evidence := by rw [evidence_orderless, evidence_read]

/-! ## Accepted plans -/

section env
variable {env : Env}

theorem refuseIf_ok {refused : Bool} {field : String} :
    refuseIf refused field = .ok () ↔ refused = false := by
  cases refused <;> simp [refuseIf]

def PlanProposalInput.digested (env : Env) (input : PlanProposalInput) : PlanRevision :=
  { input with
    planDigest := input.computePlanDigest env
    evidenceDigest := input.computeEvidenceDigest env }

variable {p : PlanRevision}

theorem validate_ok : p.validate env = .ok () ↔
    p.toPlanProposalInput.validateContent env = .ok () ∧
      p = p.toPlanProposalInput.digested env := by
  unfold PlanRevision.validate
  rw [seq_eq_ok, seq_eq_ok, refuseIf_ok, refuseIf_ok]
  refine and_congr_right fun _ => ?_
  simp only [decide_eq_false_iff_not, ne_eq, Decidable.not_not]
  constructor
  · intro h
    obtain ⟨hplan, hevidence⟩ := h
    cases p
    simp only [PlanProposalInput.digested, PlanRevision.mk.injEq, true_and]
    exact ⟨hplan, hevidence⟩
  · intro h
    rw [h]
    exact ⟨rfl, rfl⟩

variable {input : PlanProposalInput} {plan : PlanRevision}

theorem fromProposal_ok : fromProposal env input = .ok plan ↔
      input.validateContent env = .ok () ∧ plan = input.digested env ∧
        plan.serialize.length ≤ maxPersistedRevisionBytes := by
  have hvalid : (input.digested env).validate env = .ok () ↔
      input.validateContent env = .ok () :=
    validate_ok.trans (and_iff_left rfl)
  have hunfold : fromProposal env input = ((input.digested env).validate env >>= fun _ =>
      if maxPersistedRevisionBytes < (input.digested env).serialize.length then
        .error (.invalid "persisted revision size")
      else .ok (input.digested env)) := rfl
  rw [hunfold, seq_eq_ok, hvalid]
  refine and_congr_right fun _ => ?_
  constructor
  · intro h
    split at h
    · cases h
    · rename_i hsize
      cases h
      exact ⟨rfl, Nat.le_of_not_lt hsize⟩
  · intro h
    obtain ⟨rfl, hsize⟩ := h
    rw [if_neg (Nat.not_lt.mpr hsize)]

theorem fromPersisted_ok {stored : PersistedPlanRevision} : fromPersisted env stored = .ok plan ↔
      fromProposal env stored.toPlanProposalInput = .ok plan ∧ stored = plan.persisted := by
  unfold fromPersisted
  rw [bind_eq_ok]
  constructor
  · intro h
    obtain ⟨plan', hproposal, h⟩ := h
    split at h
    · cases h
    · rename_i hsame
      obtain ⟨hplan, hevidence⟩ := not_or.mp hsame
      cases h
      refine ⟨hproposal, ?_⟩
      have hinput : plan.toPlanProposalInput = stored.toPlanProposalInput := by
        rw [(fromProposal_ok.mp hproposal).2.1]
        rfl
      cases stored
      simp only [PlanRevision.persisted, PersistedPlanRevision.mk.injEq]
      exact ⟨hinput.symm, Decidable.not_not.mp hplan, Decidable.not_not.mp hevidence⟩
  · intro h
    obtain ⟨hproposal, hstored⟩ := h
    refine ⟨plan, hproposal, ?_⟩
    rw [hstored, if_neg]
    exact fun hor => hor.elim (fun hne => hne rfl) (fun hne => hne rfl)

theorem accepted_read (h : fromProposal env input = .ok plan) :
    PlanRevision.read env plan.value = some plan := by
  have hinput : plan.toPlanProposalInput = input := by
    rw [(fromProposal_ok.mp h).2.1]
    rfl
  have hpersisted : fromPersisted env plan.persisted = .ok plan :=
    fromPersisted_ok.mpr ⟨(congrArg (fromProposal env) hinput).trans h, rfl⟩
  rw [PlanRevision.read, plan_read, Option.bind_some, hpersisted]
  rfl

theorem round_trip (hjson : env.parseJson plan.serialize = some plan.value)
    (h : fromProposal env input = .ok plan) : fromPersistedBytes env plan.serialize = .ok plan := by
  have hsize := (fromProposal_ok.mp h).2.2
  rw [fromPersistedBytes, if_neg (Nat.not_lt.mpr hsize), hjson, Option.bind_some, accepted_read h]

theorem fromPersistedBytes_ok {bytes : List UInt8} (h : fromPersistedBytes env bytes = .ok plan) :
    ∃ v, env.parseJson bytes = some v ∧ PersistedPlanRevision.read v = some plan.persisted ∧
      fromPersisted env plan.persisted = .ok plan := by
  unfold fromPersistedBytes at h
  split at h
  · cases h
  · split at h
    · rename_i plan' hread
      cases h
      obtain ⟨v, hparse, hread⟩ := Option.bind_eq_some_iff.mp hread
      obtain ⟨stored, hstored, hpersisted⟩ := Option.bind_eq_some_iff.mp hread
      cases hresult : fromPersisted env stored with
      | error e =>
        rw [hresult] at hpersisted
        cases hpersisted
      | ok plan' =>
        rw [hresult] at hpersisted
        cases hpersisted
        obtain ⟨-, rfl⟩ := fromPersisted_ok.mp hresult
        exact ⟨v, hparse, hstored, hresult⟩
    · cases h

/-- SHA-256 tells these two contents apart. -/
def NoCollision (env : Env) (v w : Json) : Prop :=
  env.sha256Hex (canonicalJsonBytes v) = env.sha256Hex (canonicalJsonBytes w) →
    canonicalJsonBytes v = canonicalJsonBytes w

theorem content_of_digest {p q : PlanProposalInput}
    (hsha : NoCollision env (.object p.members) (.object q.members))
    (h : p.computePlanDigest env = q.computePlanDigest env) : p = q :=
  content_of_canonical (hsha h)

theorem evidence_of_digest {p q : PlanProposalInput}
    (hsha : NoCollision env p.evidenceMaterial q.evidenceMaterial)
    (h : p.computeEvidenceDigest env = q.computeEvidenceDigest env) :
    p.subject = q.subject ∧ p.evidence = q.evidence :=
  evidence_of_canonical (hsha h)

theorem persisted_digests (h : fromPersisted env plan.persisted = .ok plan) :
    plan.planDigest = plan.toPlanProposalInput.computePlanDigest env ∧
      plan.evidenceDigest = plan.toPlanProposalInput.computeEvidenceDigest env := by
  have hplan : plan = plan.toPlanProposalInput.digested env :=
    (fromProposal_ok.mp (fromPersisted_ok.mp h).1).2.1
  constructor
  · exact congrArg PlanRevision.planDigest hplan
  · exact congrArg PlanRevision.evidenceDigest hplan

theorem validateAgainstAt_ok {a : PlanApproval} {now : Int} :
    a.validateAgainstAt env p now = .ok () ↔ p.validate env = .ok () ∧ a.version = 1 ∧
      checkId a.approvalId "approval id" = .ok () ∧ checkId a.userId "user id" = .ok () ∧
      ∃ approved expires, env.parseTime a.approvedAt = some approved ∧
        env.parseTime a.expiresAt = some expires ∧ approved ≤ now ∧ approved < expires ∧
        now < expires ∧ a.binds env p = true := by
  have htime : ∀ {text field : String} {time : Int},
      timeOf env text field = .ok time ↔ env.parseTime text = some time := by
    intro text field time
    unfold timeOf
    cases env.parseTime text <;> simp
  have hlive : ∀ {approved expires : Int},
      (decide (now < approved) || decide (expires ≤ approved) || decide (expires ≤ now)) = false ↔
        approved ≤ now ∧ approved < expires ∧ now < expires := by
    intro approved expires
    simp only [Bool.or_eq_false_iff, decide_eq_false_iff_not]
    omega
  unfold PlanApproval.validateAgainstAt
  rw [seq_eq_ok, seq_eq_ok, seq_eq_ok, seq_eq_ok, refuseIf_ok, decide_eq_false_iff_not,
    Decidable.not_not, bind_eq_ok]
  refine and_congr_right fun _ => and_congr_right fun _ => and_congr_right fun _ =>
    and_congr_right fun _ => ?_
  constructor
  · intro h
    obtain ⟨approved, happroved, h⟩ := h
    obtain ⟨expires, hexpires, h⟩ := bind_eq_ok.mp h
    obtain ⟨horder, hbinds⟩ := seq_eq_ok.mp h
    obtain ⟨hnow, hafter, hbefore⟩ := hlive.mp (refuseIf_ok.mp horder)
    refine ⟨approved, expires, htime.mp happroved, htime.mp hexpires, hnow, hafter, hbefore, ?_⟩
    simpa using refuseIf_ok.mp hbinds
  · intro h
    obtain ⟨approved, expires, happroved, hexpires, hnow, hafter, hbefore, hbinds⟩ := h
    refine ⟨approved, htime.mpr happroved, bind_eq_ok.mpr ⟨expires, htime.mpr hexpires, ?_⟩⟩
    refine seq_eq_ok.mpr ⟨refuseIf_ok.mpr (hlive.mpr ⟨hnow, hafter, hbefore⟩), ?_⟩
    exact refuseIf_ok.mpr (by simpa using hbinds)

theorem binds_fields {a : PlanApproval} (h : a.binds env p = true) :
    a.planId = p.planId ∧ a.revision = p.revision ∧
      a.planDigest = p.toPlanProposalInput.computePlanDigest env ∧
      a.evidenceDigest = p.toPlanProposalInput.computeEvidenceDigest env ∧
      a.revocationGeneration = p.revocationGeneration := by
  simp only [PlanApproval.binds, Bool.and_eq_true, decide_eq_true_eq] at h
  obtain ⟨⟨⟨⟨⟨⟨⟨-, -⟩, hid⟩, hrevision⟩, hplan⟩, hevidence⟩, hgeneration⟩, -⟩ := h
  exact ⟨hid, hrevision, hplan, hevidence, hgeneration⟩

end env

/-- Every accepted plan is read back from its bytes; a record that is accepted has the digests
of its own fields, so one whose content is not what was digested is refused; and an approval
validates against nothing but the plan it names. -/
theorem plans_round_trip_and_bind (env : Env)
    (hjson : ∀ p : PlanRevision, env.parseJson p.serialize = some p.value) :
    (∀ input plan, fromProposal env input = .ok plan →
      fromPersistedBytes env plan.serialize = .ok plan) ∧
    (∀ bytes plan, fromPersistedBytes env bytes = .ok plan →
      ∃ v, env.parseJson bytes = some v ∧ PersistedPlanRevision.read v = some plan.persisted ∧
        plan.planDigest = plan.toPlanProposalInput.computePlanDigest env ∧
        plan.evidenceDigest = plan.toPlanProposalInput.computeEvidenceDigest env) ∧
    (∀ (stored : PersistedPlanRevision) (content : PlanProposalInput),
      stored.planDigest = content.computePlanDigest env →
      stored.toPlanProposalInput ≠ content →
      NoCollision env (.object content.members) (.object stored.toPlanProposalInput.members) →
      ∃ e, fromPersisted env stored = .error e) ∧
    (∀ (stored : PersistedPlanRevision) (content : PlanProposalInput),
      stored.evidenceDigest = content.computeEvidenceDigest env →
      ¬ (stored.subject = content.subject ∧ stored.evidence = content.evidence) →
      NoCollision env content.evidenceMaterial stored.toPlanProposalInput.evidenceMaterial →
      ∃ e, fromPersisted env stored = .error e) ∧
    ∀ (a : PlanApproval) (issued plan : PlanRevision) (now : Int),
      issued.validate env = .ok () → a.binds env issued = true →
      NoCollision env (.object plan.toPlanProposalInput.members)
        (.object issued.toPlanProposalInput.members) →
      a.validateAgainstAt env plan now = .ok () →
      plan = issued ∧ a.revision = plan.revision ∧
        a.revocationGeneration = plan.revocationGeneration := by
  refine ⟨fun input plan h => round_trip (hjson plan) h, ?_, ?_, ?_, ?_⟩
  · intro bytes plan h
    obtain ⟨v, hparse, hread, hpersisted⟩ := fromPersistedBytes_ok h
    exact ⟨v, hparse, hread, persisted_digests hpersisted⟩
  · intro stored content hdigest hne hsha
    cases hresult : fromPersisted env stored with
    | error e => exact ⟨e, rfl⟩
    | ok plan =>
      obtain ⟨-, rfl⟩ := fromPersisted_ok.mp hresult
      have hown := (persisted_digests hresult).1
      exact absurd (content_of_digest hsha (hdigest.symm.trans hown)).symm hne
  · intro stored content hdigest hne hsha
    cases hresult : fromPersisted env stored with
    | error e => exact ⟨e, rfl⟩
    | ok plan =>
      obtain ⟨-, rfl⟩ := fromPersisted_ok.mp hresult
      have hown := (persisted_digests hresult).2
      obtain ⟨hsubject, hevidence⟩ := evidence_of_digest hsha (hdigest.symm.trans hown)
      exact absurd ⟨hsubject.symm, hevidence.symm⟩ hne
  · intro a issued plan now hissued hbound hsha hvalid
    obtain ⟨hplan, -, -, -, -, -, -, -, -, -, -, hbinds⟩ := validateAgainstAt_ok.mp hvalid
    obtain ⟨-, hrevision, hdigest, -, hgeneration⟩ := binds_fields hbinds
    obtain ⟨-, -, hdigest', -, -⟩ := binds_fields hbound
    have hcontent := content_of_digest hsha (hdigest.symm.trans hdigest')
    refine ⟨?_, hrevision, hgeneration⟩
    calc plan = plan.toPlanProposalInput.digested env := (validate_ok.mp hplan).2
      _ = issued.toPlanProposalInput.digested env := by rw [hcontent]
      _ = issued := (validate_ok.mp hissued).2.symm

/-! ## A plan of one node -/

def sampleInput : PlanProposalInput where
  version := 1
  instanceId := "i1"
  workspaceId := "w1"
  planId := "p1"
  revision := 1
  revocationGeneration := 0
  supersedes := none
  subject :=
    { workspaceId := "w1", repositoryRevision := "abc", dirtyPaths := []
      attribution := .conclusive }
  evidence := { version := 1, subject := "parser", references := [] }
  nodes :=
    [{ id := "n1", parentId := none, task := "Fix", successCriteria := ["tests pass"]
       promptContext := "Fix the parser."
       promptContextDigest := "4542e8095b03b5fb8b8876d11c41f45622b4f93c0bc7ef49055e69c9171f05e0"
       outputContract := "a diff", scope := ["src"], role := .implementation
       allowedTools := ["read_file"], providerAllowlist := ["codex"], dependencies := []
       budgetUnits := 1, retryLimit := 0, concurrencyClass := "default" }]
  totalBudgetUnits := 1
  maxConcurrency := 1

/-- The digests of the three texts that the sample plan digests: its prompt, its evidence and
its content, told apart by their lengths. -/
def sampleSha256Hex (bytes : List UInt8) : String :=
  if bytes.length = 15 then "4542e8095b03b5fb8b8876d11c41f45622b4f93c0bc7ef49055e69c9171f05e0"
  else if bytes.length = 146 then
    "da05da7e27ace6016afff66f089cd0e1fa9b9a4300904e24432eefa0313909e1"
  else "a45732623485ed5ea638b9e7fb85eaf92a0742d8d1f4afeb09db5c9a7a9049e0"

theorem plan_numeric (p : PlanRevision) : p.value.Numeric := by
  have hinput := (Json.numericMembers_iff _).mp (input_numeric p.toPlanProposalInput)
  refine (Json.numericMembers_iff _).mpr fun member hmem => ?_
  rcases mem_append.mp hmem with hmem | hmem
  · exact hinput member hmem
  · obtain rfl | rfl : member = ("plan_digest", Json.string p.planDigest) ∨
        member = ("evidence_digest", Json.string p.evidenceDigest) := by
      simpa using hmem
    · trivial
    · trivial

noncomputable def samplePlanReader (bytes : List UInt8) : Option Json := by
  classical
  exact if h : ∃ p : PlanRevision, p.serialize = bytes then some h.choose.value else none

theorem samplePlanReader_reads (p : PlanRevision) :
    samplePlanReader p.serialize = some p.value := by
  have h : ∃ q : PlanRevision, q.serialize = p.serialize := ⟨p, rfl⟩
  rw [samplePlanReader, dif_pos h]
  exact congrArg some (Json.bytes_inj (plan_numeric _) (plan_numeric p) h.choose_spec)

noncomputable def sampleEnv : Env where
  sha256Hex := sampleSha256Hex
  parseJson := samplePlanReader
  parseTime _ := none

theorem sample_accepted :
    fromProposal sampleEnv sampleInput = .ok (sampleInput.digested sampleEnv) := by
  have hcontent : sampleInput.validateContent sampleEnv = .ok () := by
    decide +kernel
  have hsize : (sampleInput.digested sampleEnv).serialize.length ≤ maxPersistedRevisionBytes := by
    decide +kernel
  exact fromProposal_ok.mpr ⟨hcontent, rfl, hsize⟩

theorem sample_plan_round_trips :
    fromPersistedBytes sampleEnv (sampleInput.digested sampleEnv).serialize =
      .ok (sampleInput.digested sampleEnv) :=
  (plans_round_trip_and_bind sampleEnv samplePlanReader_reads).1 sampleInput _ sample_accepted

end Orkworksd.Coordinator
