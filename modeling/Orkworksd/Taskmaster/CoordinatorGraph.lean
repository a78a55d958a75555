import Orkworksd.Lib.DepthFirst
import Orkworksd.Taskmaster.CoordinatorDigests

/- What the validation of a plan decides about its graph and its budget.

   `visit` is the search of `Lib.DepthFirst` over the places that a step names, its parent
   first and then its dependencies, so both kinds of edges are one relation. The budget check
   adds with a test for overflow, which fails only on a sum that no budget can hold.

   Main result: `graph_and_budget_exact`. -/
namespace Orkworksd.Coordinator
open Lib List

variable {p : PlanProposalInput}

/-! ## The visit is a depth-first search -/

/-- The steps that a step names. -/
def PlanNode.named (node : PlanNode) : List String := node.parentId.toList ++ node.dependencies

/-- The steps that the step of this name names. -/
def following (nodes : List PlanNode) (name : String) : Option (List String) :=
  (nodes.find? (fun node => node.id = name)).map PlanNode.named

def faultError : DepthFirst.Fault → CoordinatorError
  | .cycle => .invalid "graph cycle"
  | .missing => .panicked
  | .exhausted => .exhausted

/-- The loop of `validate` over the steps. -/
def visitAll (nodes : List PlanNode) (fuel : Nat) : Result Marks :=
  nodes.foldlM (fun marks node => visit nodes fuel node.id marks) ([], [])

theorem foldlM_mapError {α β ε δ : Type} {f : β → α → Except ε β} {g : β → α → Except δ β}
    {e : ε → δ} (hfg : ∀ b a, g b a = (f b a).mapError e) (as : List α) (b : β) :
    as.foldlM g b = (as.foldlM f b).mapError e := by
  induction as generalizing b with
  | nil => rfl
  | cons a as ih =>
    rw [foldlM_cons, foldlM_cons, hfg]
    cases f b a with
    | error err => rfl
    | ok b' => exact ih b'

theorem visit_eq (nodes : List PlanNode) (fuel : Nat) (name : String) (marks : Marks) :
    visit nodes fuel name marks =
      (DepthFirst.visit (following nodes) fuel name marks).mapError faultError := by
  induction fuel generalizing name marks with
  | zero => rfl
  | succ fuel ih =>
    obtain ⟨visiting, visited⟩ := marks
    rw [visit, DepthFirst.visit, following]
    split
    · rfl
    · split
      · rfl
      · cases nodes.find? (fun node => node.id = name) with
        | none => rfl
        | some node =>
          have hfold := foldlM_mapError (fun marks next => ih next marks) node.named
            (name :: visiting, visited)
          show (node.named.foldlM (fun marks next => visit nodes fuel next marks) _ >>= _) =
            Except.mapError faultError (node.named.foldlM _ _ >>= _)
          rw [hfold]
          cases node.named.foldlM
            (fun marks next => DepthFirst.visit (following nodes) fuel next marks)
            (name :: visiting, visited) with
          | error fault => rfl
          | ok marks => rfl

theorem visitAll_eq (nodes : List PlanNode) (fuel : Nat) :
    visitAll nodes fuel =
      (DepthFirst.search (following nodes) fuel (nodes.map PlanNode.id)).mapError faultError := by
  rw [visitAll, DepthFirst.search, foldlM_map]
  exact foldlM_mapError (fun marks node => visit_eq nodes fuel node.id marks) nodes _

/-! ## The graph of a plan -/

/-- A step names another as its parent or among its dependencies. -/
def Names (nodes : List PlanNode) (a b : String) : Prop :=
  ∃ node ∈ nodes, node.id = a ∧ (node.parentId = some b ∨ b ∈ node.dependencies)

/-- No step reaches itself over parents and dependencies. -/
def Acyclic (nodes : List PlanNode) : Prop := ∀ a, ¬ Relation.TransGen (Names nodes) a a

/-- Every step that is named is there. -/
def References (nodes : List PlanNode) : Prop :=
  ∀ a b, Names nodes a b → b ∈ nodes.map PlanNode.id

section graph
variable {nodes : List PlanNode}

variable {b : String} {node : PlanNode}

theorem mem_named : b ∈ node.named ↔ node.parentId = some b ∨ b ∈ node.dependencies := by
  rw [PlanNode.named, mem_append, Option.mem_toList]

section
variable (hids : (nodes.map PlanNode.id).Nodup)
include hids

theorem find_id (hnode : node ∈ nodes) :
    nodes.find? (fun other => other.id = node.id) = some node := by
  induction nodes with
  | nil => cases hnode
  | cons first nodes ih =>
    obtain ⟨hfirst, hids⟩ := nodup_cons.mp hids
    rcases mem_cons.mp hnode with rfl | hnode
    · exact List.find?_cons_of_pos (decide_eq_true rfl)
    · have hne : ¬ decide (first.id = node.id) = true := by
        intro heq
        exact hfirst (of_decide_eq_true heq ▸ mem_map_of_mem hnode)
      calc (first :: nodes).find? (fun other => other.id = node.id)
          = nodes.find? (fun other => other.id = node.id) := List.find?_cons_of_neg hne
        _ = some node := ih hids hnode

variable {a : String}

theorem edge_iff :
    DepthFirst.Edge (following nodes) a b ↔ Names nodes a b := by
  constructor
  · intro h
    obtain ⟨places, hplaces, hb⟩ := h
    obtain ⟨node, hfind, rfl⟩ := Option.map_eq_some_iff.mp hplaces
    have hid : node.id = a := by simpa using List.find?_some hfind
    exact ⟨node, mem_of_find?_eq_some hfind, hid, mem_named.mp hb⟩
  · intro h
    obtain ⟨node, hnode, rfl, hb⟩ := h
    refine ⟨node.named, ?_, mem_named.mpr hb⟩
    rw [following, find_id hids hnode]
    rfl

theorem acyclic_iff :
    DepthFirst.Acyclic (following nodes) ↔ Acyclic nodes := by
  have hedge : DepthFirst.Edge (following nodes) = Names nodes := by
    funext a b
    exact propext (edge_iff hids)
  rw [DepthFirst.Acyclic, hedge, Acyclic]

theorem following_closed (hrefs : References nodes) :
    DepthFirst.Closed (following nodes) (nodes.map PlanNode.id) := by
  intro a ha
  obtain ⟨node, hnode, rfl⟩ := mem_map.mp ha
  refine ⟨node.named, ?_, fun b hb => hrefs node.id b ⟨node, hnode, rfl, mem_named.mp hb⟩⟩
  rw [following, find_id hids hnode]
  rfl

end

theorem following_place {places : List String} (h : following nodes a = some places) :
    a ∈ nodes.map PlanNode.id := by
  obtain ⟨node, hfind, -⟩ := Option.map_eq_some_iff.mp h
  have hid : node.id = a := by simpa using List.find?_some hfind
  exact mem_map.mpr ⟨node, mem_of_find?_eq_some hfind, hid⟩

/-- With more fuel than steps the visit ends, meets no name that is missing and accepts
exactly the plans without a cycle. -/
theorem visitAll_spec (hids : (nodes.map PlanNode.id).Nodup) (hrefs : References nodes) {fuel : Nat}
    (hfuel : nodes.length < fuel) :
    visitAll nodes fuel = visitAll nodes (nodes.length + 1) ∧
      (visitAll nodes fuel ≠ .error .panicked ∧ visitAll nodes fuel ≠ .error .exhausted) ∧
      ((∃ marks, visitAll nodes fuel = .ok marks) ↔ Acyclic nodes) := by
  have hclosed := following_closed hids hrefs
  have hlength : (nodes.map PlanNode.id).length = nodes.length := length_map _
  have hfuel' : (nodes.map PlanNode.id).length < fuel := by omega
  refine ⟨?_, ?_, ?_⟩
  · rw [visitAll_eq, visitAll_eq]
    congr 1
    exact DepthFirst.search_fuel hclosed (fun _ _ => following_place) (by omega) hfuel
  · rw [visitAll_eq]
    cases h : DepthFirst.search (following nodes) fuel (nodes.map PlanNode.id) with
    | ok marks => exact ⟨fun heq => (nomatch heq), fun heq => nomatch heq⟩
    | error fault =>
      rw [DepthFirst.search_error hclosed hfuel' h]
      exact ⟨fun heq => (nomatch heq), fun heq => nomatch heq⟩
  · rw [← acyclic_iff hids,
      ← DepthFirst.search_ok_iff hclosed (fun _ _ => following_place) hfuel', visitAll_eq]
    cases DepthFirst.search (following nodes) fuel (nodes.map PlanNode.id) with
    | ok marks => exact ⟨fun _ => ⟨marks, rfl⟩, fun _ => ⟨marks, rfl⟩⟩
    | error fault =>
      constructor
      · intro h
        obtain ⟨marks, hmarks⟩ := h
        cases hmarks
      · intro h
        obtain ⟨marks, hmarks⟩ := h
        cases hmarks

end graph

/-! ## The checks of the validation -/

section checks
variable {env : Env}

variable {nodes : List PlanNode}

theorem validateNodes_ok {ids : List String} :
    validateNodes env nodes ids = .ok () ↔ (∀ node ∈ nodes, node.validate env = .ok ()) ∧
      (nodes.map PlanNode.id).Nodup ∧ ∀ node ∈ nodes, node.id ∉ ids := by
  induction nodes generalizing ids with
  | nil => simp [validateNodes]
  | cons node nodes ih =>
    rw [validateNodes, seq_eq_ok, seq_eq_ok, refuseIf_ok, ih]
    simp only [contains_eq_mem, decide_eq_false_iff_not, mem_cons, forall_eq_or_imp,
      map_cons, nodup_cons, not_or, mem_map, not_exists, not_and]
    constructor
    · intro h
      obtain ⟨hnode, hid, hnodes, hnodup, hids⟩ := h
      exact ⟨⟨hnode, hnodes⟩, ⟨fun other hother heq => (hids other hother).1 heq, hnodup⟩, hid,
        fun other hother => (hids other hother).2⟩
    · intro h
      obtain ⟨⟨hnode, hnodes⟩, ⟨hfirst, hnodup⟩, hid, hids⟩ := h
      exact ⟨hnode, hid, hnodes, hnodup, fun other hother => ⟨hfirst other hother, hids other hother⟩⟩

theorem forM_ok {α : Type} {f : α → Result Unit} {as : List α} :
    as.forM f = .ok () ↔ ∀ a ∈ as, f a = .ok () := by
  induction as with
  | nil => simp [pure, Except.pure]
  | cons a as ih =>
    show (f a >>= fun _ => as.forM f) = .ok () ↔ _
    rw [seq_eq_ok, ih, forall_mem_cons]

theorem references_ok :
    nodes.forM (fun node =>
      refuseIf (node.parentId.any (fun parent => !(nodes.map PlanNode.id).contains parent) ||
        node.dependencies.any (fun dep => !(nodes.map PlanNode.id).contains dep))
        "graph reference") = .ok () ↔ References nodes := by
  rw [forM_ok]
  simp only [refuseIf_ok, Bool.or_eq_false_iff, any_eq_false, Bool.not_eq_true,
    Bool.not_eq_false', contains_iff_mem]
  constructor
  · intro h a b hnames
    obtain ⟨node, hnode, -, hb⟩ := hnames
    obtain ⟨hparent, hdeps⟩ := h node hnode
    rcases hb with hb | hb
    · rw [hb] at hparent
      simpa using hparent
    · exact hdeps b hb
  · intro h node hnode
    constructor
    · cases hparent : node.parentId with
      | none => rfl
      | some parent => simpa using h node.id parent ⟨node, hnode, rfl, .inl hparent⟩
    · exact fun dep hdep => h node.id dep ⟨node, hnode, rfl, .inr hdep⟩

theorem validateGraph_ok (hids : (p.nodes.map PlanNode.id).Nodup) (hrefs : References p.nodes) :
    p.validateGraph env = .ok () ↔ p.nodes ≠ [] ∧ p.nodes.length ≤ maxNodes ∧
      (∀ node ∈ p.nodes, node.validate env = .ok ()) ∧ Acyclic p.nodes := by
  have hvisit : (visitAll p.nodes (p.nodes.length + 1) >>= fun _ => Except.ok ()) =
      (.ok () : Result Unit) ↔ Acyclic p.nodes := by
    rw [bind_eq_ok, ← (visitAll_spec hids hrefs (Nat.lt_succ_self _)).2.2]
    simp
  have hnodes : validateNodes env p.nodes [] = .ok () ↔
      ∀ node ∈ p.nodes, node.validate env = .ok () := by
    rw [validateNodes_ok]
    exact ⟨fun h => h.1, fun h => ⟨h, hids, by simp⟩⟩
  have hunfold : p.validateGraph env = (do
      refuseIf (p.nodes.isEmpty || maxNodes < p.nodes.length) "nodes"
      validateNodes env p.nodes []
      p.nodes.forM (fun node =>
        refuseIf (node.parentId.any (fun parent => !(p.nodes.map PlanNode.id).contains parent) ||
          node.dependencies.any (fun dep => !(p.nodes.map PlanNode.id).contains dep))
          "graph reference")
      visitAll p.nodes (p.nodes.length + 1) >>= fun _ => Except.ok ()) := rfl
  rw [hunfold, seq_eq_ok, seq_eq_ok, seq_eq_ok, refuseIf_ok, references_ok, hvisit, hnodes]
  simp only [Bool.or_eq_false_iff, isEmpty_eq_false_iff, decide_eq_false_iff_not, Nat.not_lt,
    ne_eq, hrefs, true_and, and_assoc]

end checks

/-! ## The budget -/

/-- What the steps need together. -/
def needed (nodes : List PlanNode) : Nat := (nodes.map (fun node => node.budgetUnits.toNat)).sum

theorem reserved_from (nodes : List PlanNode) (sum : Nat) (hsum : sum < 2 ^ 64) :
    nodes.foldlM (fun sum node =>
      if sum + node.budgetUnits.toNat < 2 ^ 64 then some (sum + node.budgetUnits.toNat)
      else none) sum =
      if sum + needed nodes < 2 ^ 64 then some (sum + needed nodes) else none := by
  induction nodes generalizing sum with
  | nil => exact (if_pos hsum).symm
  | cons node nodes ih =>
    have hneeded : needed (node :: nodes) = node.budgetUnits.toNat + needed nodes :=
      sum_cons
    rw [foldlM_cons, hneeded, ← Nat.add_assoc]
    by_cases hfits : sum + node.budgetUnits.toNat < 2 ^ 64
    · rw [if_pos hfits]
      exact ih _ hfits
    · rw [if_neg hfits, if_neg (by omega)]
      rfl

theorem reserved_eq (nodes : List PlanNode) :
    reserved nodes = if needed nodes < 2 ^ 64 then some (needed nodes) else none := by
  have h := reserved_from nodes 0 (by decide)
  rw [Nat.zero_add] at h
  exact h

theorem validateBudget_ok :
    p.validateBudget = .ok () ↔ (p.totalBudgetUnits ≠ 0 ∧ p.maxConcurrency ≠ 0) ∧
      needed p.nodes ≤ p.totalBudgetUnits.toNat := by
  unfold PlanProposalInput.validateBudget
  rw [seq_eq_ok, refuseIf_ok, reserved_eq]
  have hlimits : (decide (p.totalBudgetUnits = 0) || decide (p.maxConcurrency = 0)) = false ↔
      p.totalBudgetUnits ≠ 0 ∧ p.maxConcurrency ≠ 0 := by
    simp
  rw [hlimits]
  refine and_congr_right fun _ => ?_
  have hsize := p.totalBudgetUnits.toNat_lt
  by_cases hfits : needed p.nodes < 2 ^ 64
  · rw [if_pos hfits]
    dsimp only
    rw [refuseIf_ok, decide_eq_false_iff_not, Nat.not_lt]
  · rw [if_neg hfits]
    refine ⟨fun h => (nomatch h), fun h => ?_⟩
    omega

/-! ## The result -/

/-- For steps with names of their own and closed references: the visit ends before any fuel
above the number of steps is used up, always with the same result, and never looks up a name
that is missing; the graph is accepted exactly where parents and dependencies together have no cycle;
and the budget exactly where it covers the sum of what the steps need. -/
theorem graph_and_budget_exact (env : Env) (p : PlanProposalInput)
    (hids : (p.nodes.map PlanNode.id).Nodup) (hrefs : References p.nodes) :
    (∀ fuel, p.nodes.length < fuel →
      visitAll p.nodes fuel = visitAll p.nodes (p.nodes.length + 1) ∧
        visitAll p.nodes fuel ≠ .error .panicked ∧ visitAll p.nodes fuel ≠ .error .exhausted) ∧
      ((∃ marks, visitAll p.nodes (p.nodes.length + 1) = .ok marks) ↔ Acyclic p.nodes) ∧
      (p.validateGraph env = .ok () ↔ (p.nodes ≠ [] ∧ p.nodes.length ≤ maxNodes ∧
        ∀ node ∈ p.nodes, node.validate env = .ok ()) ∧ Acyclic p.nodes) ∧
      (p.validateBudget = .ok () ↔ (p.totalBudgetUnits ≠ 0 ∧ p.maxConcurrency ≠ 0) ∧
        needed p.nodes ≤ p.totalBudgetUnits.toNat) := by
  refine ⟨?_, ?_, ?_, validateBudget_ok⟩
  · intro fuel hfuel
    obtain ⟨hsame, hpanic, -⟩ := visitAll_spec hids hrefs hfuel
    exact ⟨hsame, hpanic⟩
  · exact (visitAll_spec hids hrefs (Nat.lt_succ_self _)).2.2
  · rw [validateGraph_ok hids hrefs, and_assoc, and_assoc]

/-- Two steps: the first has the second as its parent, and the second depends on the first. -/
def crossedInput : PlanProposalInput :=
  { sampleInput with
    nodes := sampleInput.nodes.flatMap (fun node =>
      [{ node with parentId := some "n2" }, { node with id := "n2", dependencies := ["n1"] }]) }

theorem crossed_plan_refused :
    crossedInput.validateBudget ≠ .ok () ∧
      ¬ ∃ marks, visitAll crossedInput.nodes (crossedInput.nodes.length + 1) = .ok marks := by
  have hids : (crossedInput.nodes.map PlanNode.id).Nodup := by decide
  have hrefs : References crossedInput.nodes := references_ok.mp (by decide)
  obtain ⟨-, hvisit, -, hbudget⟩ := graph_and_budget_exact sampleEnv crossedInput hids hrefs
  refine ⟨fun h => absurd (hbudget.mp h).2 (by decide), fun h => ?_⟩
  have hfirst : Names crossedInput.nodes "n1" "n2" := ⟨_, mem_cons_self, rfl, .inl rfl⟩
  have hsecond : Names crossedInput.nodes "n2" "n1" :=
    ⟨_, mem_cons_of_mem _ mem_cons_self, rfl, .inr mem_cons_self⟩
  exact hvisit.mp h "n1" (.tail (.single hfirst) hsecond)

end Orkworksd.Coordinator
