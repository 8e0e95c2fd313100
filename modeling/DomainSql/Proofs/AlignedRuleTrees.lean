import DomainSql.Proofs.BindingRun
import DomainSql.Proofs.RuleTreeOptimizer

/-!
# Rule trees whose markers stand for their members

The "or" markers in front of the members of a query combine as many operands as the query
has members. They combine the members themselves if each of these gives a single operand:
a rule does, a query with "or" does, and a query with "and" does when its members give one
together. A tree in which this holds of every query with "or" is written as a domain that
means the same, whether or not the tree is flat.
-/

namespace DomainSql
namespace RuleTree

open Expression

mutual

/-- The number of operands that a tree stands for: one for a rule and for a query with
"or", and those of all members for a query with "and". -/
def width : RuleTree → Nat
  | .rule _ => 1
  | .query .or _ => 1
  | .query .and members => widthOf members

/-- The number of operands that trees stand for together. -/
def widthOf : List RuleTree → Nat
  | [] => 0
  | member :: rest => member.width + widthOf rest

end

/-- Every query has a member, and every member of a query with "or" stands for a single
operand. -/
inductive Aligned : RuleTree → Prop
  | rule (inner : Rule) : Aligned (.rule inner)
  | and
      {members : List RuleTree}
      (nonempty : members ≠ [])
      (aligned : ∀ member ∈ members, Aligned member) :
      Aligned (.query .and members)
  | or
      {members : List RuleTree}
      (nonempty : members ≠ [])
      (aligned : ∀ member ∈ members, Aligned member)
      (single : ∀ member ∈ members, member.width = 1) :
      Aligned (.query .or members)

theorem Aligned.filled
    {tree : RuleTree}
    (aligned : tree.Aligned) :
    tree.Filled := by
  induction aligned with
  | rule inner => exact .rule inner
  | and nonempty _ inductionHypothesis => exact .query nonempty inductionHypothesis
  | or nonempty _ _ inductionHypothesis => exact .query nonempty inductionHypothesis

/-! ## The number of operands -/

theorem length_operandsOf
    {trees : List RuleTree}
    (each : ∀ tree ∈ trees, tree.operands.length = tree.width) :
    (operandsOf trees).length = widthOf trees := by
  induction trees with
  | nil => rfl
  | cons tree rest inductionHypothesis =>
      rw [List.forall_mem_cons] at each
      rw [operandsOf, List.length_append, each.1, inductionHypothesis each.2, widthOf]

/-- Trees that stand for one operand each stand for as many as there are trees. -/
theorem widthOf_of_single
    {trees : List RuleTree}
    (single : ∀ tree ∈ trees, tree.width = 1) :
    widthOf trees = trees.length := by
  induction trees with
  | nil => rfl
  | cons tree rest inductionHypothesis =>
      rw [List.forall_mem_cons] at single
      rw [widthOf, single.1, inductionHypothesis single.2, List.length_cons, Nat.add_comm]

/-- An aligned tree is written by as many operands as it stands for. -/
theorem Aligned.length_operands
    {tree : RuleTree}
    (aligned : tree.Aligned) :
    tree.operands.length = tree.width := by
  induction aligned with
  | rule inner => rfl
  | and _ _ inductionHypothesis =>
      rw [operands, width, length_operandsOf inductionHypothesis]
  | or nonempty _ single inductionHypothesis =>
      have count := length_operandsOf inductionHypothesis
      rw [widthOf_of_single single] at count
      have positive := List.length_pos_iff.mpr nonempty
      rw [operands, width, length_orFirst (by omega), count]
      omega

/-! ## Truth -/

/-- Expressions that are combined from the left by "or" are true together when one of
them is. -/
theorem evalFrom_foldl_or
    {Leaf : Type}
    (truth : Nat → Bool)
    (start : Nat)
    (first : Expression Leaf)
    (rest : List (Expression Leaf)) :
    (rest.foldl (combine .or) first).formula.evalFrom truth start =
      Formula.evalAnyFrom truth start ((first :: rest).map formula) := by
  cases rest with
  | nil => simp [Formula.evalAnyFrom]
  | cons second rest =>
      rw [formula_foldl_combine_of_two]
      exact Formula.evalFrom_combine .or truth start _

/-- The operands of a tree have its truth value, all of them together. -/
def OperandsMeanTree (tree : RuleTree) : Prop :=
  ∀ (truth : Nat → Bool) (start : Nat),
    Formula.evalAllFrom truth start (tree.operands.map formula) = tree.evalFrom truth start

/-- The operands of a tree have as many leaves as the tree has rules. -/
theorem length_leavesOf_operands (tree : RuleTree) :
    (Formula.leavesOf (tree.operands.map formula)).length = tree.rules.length := by
  rw [leavesOf_operands, List.length_map]

theorem evalAllFrom_operandsOf
    {trees : List RuleTree}
    (each : ∀ tree ∈ trees, tree.OperandsMeanTree)
    (truth : Nat → Bool)
    (start : Nat) :
    Formula.evalAllFrom truth start ((operandsOf trees).map formula) =
      combinedFrom .and truth start trees := by
  induction trees generalizing start with
  | nil => rfl
  | cons tree rest inductionHypothesis =>
      rw [List.forall_mem_cons] at each
      rw [operandsOf, List.map_append, Formula.evalAllFrom_append, each.1,
        length_leavesOf_operands, inductionHypothesis each.2]
      rfl

/-- Of trees with a single operand each, one is true when one of the operands is. -/
theorem evalAnyFrom_operandsOf
    {trees : List RuleTree}
    (each : ∀ tree ∈ trees, tree.OperandsMeanTree)
    (single : ∀ tree ∈ trees, tree.operands.length = 1)
    (truth : Nat → Bool)
    (start : Nat) :
    Formula.evalAnyFrom truth start ((operandsOf trees).map formula) =
      combinedFrom .or truth start trees := by
  induction trees generalizing start with
  | nil => rfl
  | cons tree rest inductionHypothesis =>
      rw [List.forall_mem_cons] at each single
      obtain ⟨operand, operands_eq⟩ := List.length_eq_one_iff.mp single.1
      have means : operand.formula.evalFrom truth start = tree.evalFrom truth start := by
        have means := each.1 truth start
        simpa [operands_eq, Formula.evalAllFrom] using means
      have leaves : operand.formula.leaves.length = tree.rules.length := by
        have leaves := length_leavesOf_operands tree
        simpa [operands_eq, Formula.leavesOf] using leaves
      rw [operandsOf, operands_eq, List.singleton_append, List.map_cons,
        Formula.evalAnyFrom, means, leaves, inductionHypothesis each.2 single.2]
      rfl

/-- The operands of an aligned tree have its truth value. -/
theorem Aligned.operandsMeanTree
    {tree : RuleTree}
    (aligned : tree.Aligned) :
    tree.OperandsMeanTree := by
  induction aligned with
  | rule inner =>
      intro truth start
      simp [operands, formula, Formula.evalAllFrom, Formula.evalFrom, evalFrom]
  | and _ _ inductionHypothesis =>
      exact evalAllFrom_operandsOf inductionHypothesis
  | @or members nonempty aligned single inductionHypothesis =>
      intro truth start
      have singleOperand : ∀ member ∈ members, member.operands.length = 1 :=
        fun member inMembers =>
          (aligned member inMembers).length_operands.trans (single member inMembers)
      have count : (operandsOf members).length = members.length := by
        rw [length_operandsOf fun member inMembers =>
          (aligned member inMembers).length_operands, widthOf_of_single single]
      -- As many operands as members: the markers make one disjunction of them.
      obtain ⟨first, rest, operands_eq⟩ :
          ∃ first rest, operandsOf members = first :: rest := by
        refine List.exists_cons_of_ne_nil ?_
        rw [← List.length_pos_iff, count]
        exact List.length_pos_iff.mpr nonempty
      have markers : members.length - 1 = rest.length := by
        rw [← count, operands_eq, List.length_cons, Nat.add_sub_cancel]
      rw [operands, operands_eq, markers, orFirst_length, List.map_singleton,
        Formula.evalAllFrom, Formula.evalAllFrom, Bool.and_true, evalFrom_foldl_or,
        ← operands_eq, evalAnyFrom_operandsOf inductionHypothesis singleOperand, evalFrom]

/-! ## Reading the domain of an aligned tree -/

/-- The domain of a filled tree is read as the conjunction of its operands. -/
theorem Filled.parsed_toDomain
    {tree : RuleTree}
    (filled : tree.Filled) :
    tree.toDomain.parsed = .ok (.conjunction (tree.operands.map formula)) := by
  rw [filled.toDomain_eq_write, parsed_write]

/-- The conditions of the domain of a filled tree are its rules, in the words of
conditions. -/
theorem Filled.conditions_toDomain
    {tree : RuleTree}
    (filled : tree.Filled) :
    tree.toDomain.conditions = tree.rules.map Rule.toCondition := by
  rw [filled.toDomain_eq_write, conditions_write, leavesOf_operands]

/-- The domain of an aligned tree is read by every action that never fails. The leaves of
its formula are what the action makes of the rules of the tree, in their order, and the
formula has the truth value of the tree: under all truth values of the positions of the
rules, and thus also under all truth values of the rules themselves. -/
theorem aligned_toDomain_means_tree
    {Leaf State : Type}
    {act : Condition → ExceptT Error (StateM State) Leaf}
    (neverFails : NeverFails act)
    {tree : RuleTree}
    (aligned : tree.Aligned)
    (state : State) :
    ∃ (bound : Formula (Condition × Leaf)) (after : State),
      outcome (tree.toDomain.formulaWith act) state = (.ok (bound.map Prod.snd), after) ∧
      bound.leaves.map Prod.fst = tree.rules.map Rule.toCondition ∧
      outcome ((tree.rules.map Rule.toCondition).reverse.mapM act) state =
        (.ok (bound.leaves.map Prod.snd).reverse, after) ∧
      (∀ truth : Nat → Bool,
        (bound.map Prod.snd).evalFrom truth 0 = tree.evalFrom truth 0) ∧
      ∀ truth : Rule → Bool,
        (bound.map Prod.snd).evalFrom
          (fun position => tree.rules[position]?.any truth) 0 = tree.eval truth := by
  obtain ⟨results, after, boundAll⟩ := neverFails.bindAll tree.operands state
  have read : outcome (tree.toDomain.formulaWith act) state =
      (.ok (.conjunction (results.map formula)), after) := by
    rw [aligned.filled.toDomain_eq_write, formulaWith_write, outcome_bind, boundAll]
    rfl
  obtain ⟨bound, parsed_eq, formula_eq, conditions_eq, ran⟩ :=
    Domain.exists_bound_of_formulaWith read
  have structure_eq : bound.map Prod.fst = .conjunction (tree.operands.map formula) :=
    Except.ok.inj (parsed_eq.symm.trans aligned.filled.parsed_toDomain)
  have means : ∀ truth : Nat → Bool,
      (bound.map Prod.snd).evalFrom truth 0 = tree.evalFrom truth 0 := by
    intro truth
    rw [Formula.evalFrom_map, ← Formula.evalFrom_map truth Prod.fst, structure_eq,
      Formula.evalFrom_conjunction, aligned.operandsMeanTree]
  refine ⟨bound, after, ?_, ?_, ?_, means, ?_⟩
  · rw [read, formula_eq]
  · rw [conditions_eq, aligned.filled.conditions_toDomain]
  · rw [Domain.bindRun, aligned.filled.conditions_toDomain, formula_eq,
      Formula.leaves_map] at ran
    exact ran
  · intro truth
    rw [means, eval_eq_evalFrom]

/-- A tree that is not flat, with a conjunction of one rule below a disjunction, read by
an action that counts the conditions it has bound. -/
theorem aligned_toDomain_means_nested_tree :
    let count : Condition → ExceptT Error (StateM Nat) Nat := fun _ => do
      let bound ← get
      set (bound + 1)
      pure bound
    let rule : String → RuleTree := fun field => .rule ⟨field, "=", .literal .null⟩
    let tree : RuleTree := query .and
      [query .or [query .or [rule "a", rule "b"], query .and [rule "c"]],
        query .and [rule "d", rule "e"]]
    NeverFails count ∧ tree.Aligned ∧ tree.isFlat = false ∧
    ∃ (bound : Formula (Condition × Nat)) (after : Nat),
      outcome (tree.toDomain.formulaWith count) 0 = (.ok (bound.map Prod.snd), after) ∧
      bound.map Prod.snd =
        .and [.or [.leaf 4, .leaf 3, .leaf 2], .leaf 1, .leaf 0] ∧
      ∀ truth : Nat → Bool,
        (bound.map Prod.snd).evalFrom truth 0 = tree.evalFrom truth 0 := by
  intro count rule tree
  have neverFails : NeverFails count := fun _ state => ⟨state, state + 1, rfl⟩
  have ruleAligned : ∀ field, (rule field).Aligned := fun _ => .rule _
  have inner : (query .or [rule "a", rule "b"]).Aligned :=
    .or (by simp) (by simp [ruleAligned]) (by simp [rule, width])
  have single : (query .and [rule "c"]).Aligned :=
    .and (by simp) (by simp [ruleAligned])
  have several : (query .and [rule "d", rule "e"]).Aligned :=
    .and (by simp) (by simp [ruleAligned])
  have outer : (query .or [query .or [rule "a", rule "b"], query .and [rule "c"]]).Aligned :=
    .or (by simp) (by simp [inner, single]) (by simp [rule, width, widthOf])
  have aligned : tree.Aligned := .and (by simp) (by simp [outer, several])
  obtain ⟨bound, after, read, _, _, means, _⟩ :=
    aligned_toDomain_means_tree neverFails aligned 0
  have computed : outcome (tree.toDomain.formulaWith count) 0 =
      (.ok (.and [.or [.leaf 4, .leaf 3, .leaf 2], .leaf 1, .leaf 0]), 5) := rfl
  have formula_eq := Except.ok.inj (congrArg Prod.fst (read.symm.trans computed))
  exact ⟨neverFails, aligned, rfl, bound, after, read, formula_eq, means⟩

end RuleTree
end DomainSql
