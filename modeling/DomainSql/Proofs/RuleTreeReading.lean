import DomainSql.Proofs.FormulaShape
import DomainSql.Proofs.PrefixNotation
import DomainSql.RuleTree.Conversion

/-!
# Domains as rule trees

A domain without negation is read as a rule tree in step with its formula: at
every item the trees on the stack are the images of the operands. The optimizer
finds nothing to do, except that a conjunction whose only member is a disjunction
gives way to that member.
-/

namespace DomainSql

namespace Formula

variable {Leaf : Type}

mutual

/-- The rule tree with the structure of a formula. Rule trees have no negation; the
tree of one is that of its inner formula. -/
def ruleTree : Formula Condition → RuleTree
  | .leaf condition => .rule (Rule.ofCondition condition)
  | .and members => .query .and (ruleTrees members)
  | .or members => .query .or (ruleTrees members)
  | .not inner => inner.ruleTree

/-- The rule trees with the structures of formulas. -/
def ruleTrees : List (Formula Condition) → List RuleTree
  | [] => []
  | member :: rest => member.ruleTree :: ruleTrees rest

end

/-- The rule tree of the formula of a whole domain: a conjunction whose only member
is a disjunction has the tree of that member. -/
def rootTree : Formula Condition → RuleTree
  | .and [.or members] => .query .or (ruleTrees members)
  | formula => formula.ruleTree

theorem ruleTrees_eq_map (formulas : List (Formula Condition)) :
    ruleTrees formulas = formulas.map ruleTree := by
  induction formulas with
  | nil => rfl
  | cons formula rest inductionHypothesis =>
      simp [ruleTrees, inductionHypothesis]

theorem ruleTree_compound
    (combinator : Combinator)
    (members : List (Formula Condition)) :
    (compound combinator members).ruleTree = .query combinator (ruleTrees members) := by
  cases combinator <;> rfl

theorem combinesBy_ruleTree
    (combinator : Combinator)
    {formula : Formula Condition}
    (positive : formula.Positive) :
    formula.ruleTree.combinesBy combinator = formula.combinesBy combinator := by
  cases combinator <;> cases positive <;> rfl

theorem partsBy_ruleTree
    (combinator : Combinator)
    {formula : Formula Condition}
    (positive : formula.Positive) :
    formula.ruleTree.partsBy combinator =
      (formula.membersBy combinator).map ruleTree := by
  cases combinator <;> cases positive <;>
    simp [ruleTree, membersBy, conjuncts, disjuncts, ruleTrees_eq_map,
      RuleTree.partsBy]

theorem ruleTree_combine
    (combinator : Combinator)
    (formulas : List (Formula Condition)) :
    (combine combinator formulas).ruleTree =
      .query combinator ((formulas.flatMap (membersBy combinator)).map ruleTree) := by
  rw [combine_eq_compound, ruleTree_compound, ruleTrees_eq_map]

/-- Splicing trees under a combinator gives the tree of their formulas under it. -/
theorem spliced_ruleTree
    (combinator : Combinator)
    {formulas : List (Formula Condition)}
    (positive : ∀ formula ∈ formulas, formula.Positive) :
    RuleTree.spliced combinator (formulas.map ruleTree) =
      (combine combinator formulas).ruleTree := by
  rw [RuleTree.spliced, ruleTree_combine]
  congr 1
  induction formulas with
  | nil => rfl
  | cons formula rest inductionHypothesis =>
      have others := inductionHypothesis fun other inRest =>
        positive other (by simp [inRest])
      have first := partsBy_ruleTree combinator (positive formula (by simp))
      rw [List.map_cons, List.flatMap_cons, List.flatMap_cons, List.map_append,
        first, others]

end Formula

namespace Expression

variable {Leaf : Type}

/-- The expression of two others under a combinator. -/
def combine : Combinator → Expression Leaf → Expression Leaf → Expression Leaf
  | .and => .and
  | .or => .or

/-- What holds of every leaf, of two expressions under a combinator if it holds of both,
and of a negation if it holds of its inner expression, holds of every expression. -/
@[elab_as_elim]
theorem combineInduction
    {motive : Expression Leaf → Prop}
    (leaf : ∀ value, motive (.leaf value))
    (combine : ∀ combinator left right,
      motive left → motive right → motive (.combine combinator left right))
    (not : ∀ inner, motive inner → motive (.not inner))
    (expression : Expression Leaf) : motive expression :=
  @Expression.rec Leaf motive leaf (combine .and) (combine .or) not expression

theorem items_combine
    (combinator : Combinator)
    (left right : Expression Condition) :
    (combine combinator left right).items =
      .marker (RuleTree.markerOf combinator).text :: (left.items ++ right.items) := by
  cases combinator <;> rfl

theorem formula_combine
    (combinator : Combinator)
    (left right : Expression Leaf) :
    (combine combinator left right).formula =
      Formula.combine combinator [left.formula, right.formula] := by
  cases combinator <;> rfl

/-- There is no negation in the expression. -/
def NegationFree : Expression Leaf → Prop
  | .leaf _ => True
  | .and left right => left.NegationFree ∧ right.NegationFree
  | .or left right => left.NegationFree ∧ right.NegationFree
  | .not _ => False

theorem negationFree_combine_iff
    (combinator : Combinator)
    {left right : Expression Leaf} :
    (combine combinator left right).NegationFree ↔
      left.NegationFree ∧ right.NegationFree := by
  cases combinator <;> rfl

/-- The formula of an expression is proper. -/
theorem proper_formula (expression : Expression Leaf) :
    expression.formula.Proper := by
  induction expression using combineInduction with
  | leaf value => exact .leaf value
  | combine combinator left right leftHypothesis rightHypothesis =>
      rw [formula_combine]
      exact .combine (by simp) (by simp [leftHypothesis, rightHypothesis]) combinator
  | not inner inductionHypothesis => exact .not inductionHypothesis

/-- The formula of an expression without negation has none. -/
theorem NegationFree.positive_formula
    {expression : Expression Leaf}
    (negationFree : expression.NegationFree) :
    expression.formula.Positive := by
  induction expression using combineInduction with
  | leaf value => exact .leaf value
  | combine combinator left right leftHypothesis rightHypothesis =>
      obtain ⟨leftFree, rightFree⟩ := (negationFree_combine_iff combinator).mp negationFree
      rw [formula_combine]
      exact .combine (by simp [leftHypothesis leftFree, rightHypothesis rightFree]) combinator
  | not inner inductionHypothesis => exact negationFree.elim

/-- The conditions of an expression are the leaves of its formula. -/
theorem conditions_items (expression : Expression Condition) :
    expression.items.conditions = expression.formula.leaves := by
  induction expression using combineInduction with
  | leaf condition => rfl
  | combine combinator left right leftHypothesis rightHypothesis =>
      rw [items_combine, formula_combine, Formula.leaves_combine]
      simp [leftHypothesis, rightHypothesis, Formula.leavesOf]
  | not inner inductionHypothesis =>
      simp [items, formula, inductionHypothesis, Formula.leaves]

/-- The conditions of a written domain are the leaves of its formulas. -/
theorem conditions_write (expressions : List (Expression Condition)) :
    (write expressions).conditions =
      Formula.leavesOf (expressions.map formula) := by
  induction expressions with
  | nil => rfl
  | cons expression rest inductionHypothesis =>
      rw [write_cons, List.map_cons, Formula.leavesOf,
        ← inductionHypothesis, ← conditions_items,
        Domain.conditions_append]

end Expression

namespace RuleTree

open Expression

/-! ## The trees on the stack -/

@[simp] theorem combinatorOfMarker_text
    (combinator : Combinator)
    (position : Nat) :
    combinatorOfMarker (markerOf combinator).text position = pure combinator := by
  cases combinator <;> simp [combinatorOfMarker, markerOf, pure, Except.pure]

/-- A marker that has a combinator is the marker of this combinator. -/
theorem text_of_combinatorOfMarker
    {text : String}
    {position : Nat}
    {combinator : Combinator}
    (found : combinatorOfMarker text position = .ok combinator) :
    text = (markerOf combinator).text := by
  cases marked : Marker.ofText? text with
  | none => simp [combinatorOfMarker, marked] at found
  | some marker =>
      rw [← Marker.text_of_ofText? marked]
      cases marker with
      | not => simp [combinatorOfMarker, marked] at found
      | and | or =>
          simp only [combinatorOfMarker, marked, Except.ok.injEq] at found
          rw [← found, markerOf]

/-- Two expressions without negation under a combinator have the tree that their trees
are spliced to. -/
theorem spliced_pair
    (combinator : Combinator)
    {left right : Expression Condition}
    (leftFree : left.NegationFree)
    (rightFree : right.NegationFree) :
    spliced combinator [left.formula.ruleTree, right.formula.ruleTree] =
      (combine combinator left right).formula.ruleTree := by
  have positive : ∀ formula ∈ [left.formula, right.formula], formula.Positive := by
    simp [leftFree.positive_formula, rightFree.positive_formula]
  rw [formula_combine]
  exact Formula.spliced_ruleTree combinator positive

/-- Reading an expression without negation puts the tree of its formula in front
of the trees behind it. -/
theorem treesOf_items_append
    {expression : Expression Condition}
    (negationFree : expression.NegationFree)
    (position : Nat)
    (rest : Domain) :
    treesOf position (expression.items ++ rest) = (do
      let trees ← treesOf (position + expression.items.length) rest
      pure (expression.formula.ruleTree :: trees)) := by
  induction expression using combineInduction generalizing position rest with
  | leaf condition =>
      simp [items, treesOf, formula, Formula.ruleTree]
  | combine combinator left right leftHypothesis rightHypothesis =>
      obtain ⟨leftFree, rightFree⟩ := (negationFree_combine_iff combinator).mp negationFree
      rw [items_combine, ← spliced_pair combinator leftFree rightFree]
      simp only [List.cons_append, List.append_assoc, treesOf, leftHypothesis leftFree,
        rightHypothesis rightFree, bind_assoc, pure_bind, combinatorOfMarker_text]
      simp [Nat.add_assoc, Nat.add_comm]
  | not inner => exact negationFree.elim

/-- A marker with a combinator makes one expression of the two behind it. -/
theorem exists_write_of_combinatorOfMarker
    {text : String}
    {position : Nat}
    {combinator : Combinator}
    {left right : Expression Condition}
    {others : List (Expression Condition)}
    {trees : List RuleTree}
    (negationFree : ∀ expression ∈ left :: right :: others,
      expression.NegationFree)
    (found : combinatorOfMarker text position = .ok combinator)
    (spliced_eq :
      spliced combinator [left.formula.ruleTree, right.formula.ruleTree]
        :: (others.map formula).map Formula.ruleTree = trees) :
    ∃ expressions : List (Expression Condition),
      .marker text :: Expression.write (left :: right :: others) =
        Expression.write expressions ∧
        (∀ expression ∈ expressions, expression.NegationFree) ∧
        trees = (expressions.map formula).map Formula.ruleTree := by
  simp only [List.mem_cons, forall_eq_or_imp] at negationFree
  obtain ⟨leftFree, rightFree, othersFree⟩ := negationFree
  refine ⟨combine combinator left right :: others, ?_, ?_, ?_⟩
  · simp [text_of_combinatorOfMarker found, items_combine]
  · simpa [negationFree_combine_iff, leftFree, rightFree] using othersFree
  · rw [← spliced_eq, spliced_pair combinator leftFree rightFree, List.map_cons, List.map_cons]

/-- A domain that is read as trees is written by expressions without negation, and
the trees are those of their formulas. -/
theorem exists_write_of_treesOf
    {position : Nat}
    {domain : Domain}
    {trees : List RuleTree}
    (read : treesOf position domain = .ok trees) :
    ∃ expressions : List (Expression Condition),
      domain = Expression.write expressions ∧
        (∀ expression ∈ expressions, expression.NegationFree) ∧
        trees = (expressions.map formula).map Formula.ruleTree := by
  induction domain generalizing position trees with
  | nil =>
      simp only [treesOf, Except.ok.injEq] at read
      exact ⟨[], rfl, by simp, by simp [← read]⟩
  | cons item rest inductionHypothesis =>
      rw [treesOf] at read
      obtain ⟨restTrees, restRead, read⟩ := bind_eq_ok_iff.mp read
      obtain ⟨expressions, rfl, negationFree, rfl⟩ :=
        inductionHypothesis restRead
      cases item with
      | condition condition =>
          simp only [pure, Except.pure, Except.ok.injEq] at read
          refine ⟨.leaf condition :: expressions, by simp [items], ?_, ?_⟩
          · simpa [NegationFree] using negationFree
          · simp [← read, formula, Formula.ruleTree]
      | marker text =>
          obtain ⟨combinator, found, read⟩ := bind_eq_ok_iff.mp read
          rcases expressions with _ | ⟨left, _ | ⟨right, others⟩⟩
          · simp [throw, throwThe, MonadExceptOf.throw] at read
          · simp [throw, throwThe, MonadExceptOf.throw] at read
          · simp only [List.map_cons, pure, Except.pure, Except.ok.injEq] at read
            exact exists_write_of_combinatorOfMarker negationFree found read

/-! ## The optimizer -/

/-- No query has a query with its own combinator for a member, or a query for its
only member. -/
inductive Settled : RuleTree → Prop
  | rule (inner : Rule) : Settled (.rule inner)
  | query
      {combinator : Combinator}
      {members : List RuleTree}
      (different : ∀ member ∈ members, member.combinesBy combinator = false)
      (several : ∀ member, members = [member] → member.isQuery = false)
      (settled : ∀ member ∈ members, Settled member) :
      Settled (.query combinator members)

theorem optimizeAll_eq_map (trees : List RuleTree) :
    optimizeAll trees = trees.map optimize := by
  induction trees with
  | nil => rfl
  | cons tree rest inductionHypothesis =>
      simp [optimizeAll, inductionHypothesis]

/-- Splicing does nothing when no member has the combinator of the query. -/
theorem spliced_of_different
    {combinator : Combinator}
    {members : List RuleTree}
    (different : ∀ member ∈ members,
      member.combinesBy combinator = false) :
    spliced combinator members = .query combinator members := by
  rw [spliced]
  congr 1
  induction members with
  | nil => rfl
  | cons member rest inductionHypothesis =>
      have others := inductionHypothesis fun other inRest =>
        different other (by simp [inRest])
      have first := different member (by simp)
      rw [List.flatMap_cons, others]
      cases member with
      | rule inner => rfl
      | query other nested =>
          simp only [combinesBy, beq_eq_false_iff_ne, ne_eq] at first
          simp [partsBy, first]

/-- The optimizer leaves a settled tree as it is. -/
theorem optimize_of_settled
    {tree : RuleTree}
    (settled : tree.Settled) :
    tree.optimize = tree := by
  induction settled with
  | rule inner => rfl
  | @query combinator members different several _ inductionHypothesis =>
      have unchanged : optimizeAll members = members := by
        rw [optimizeAll_eq_map]
        exact (List.map_congr_left inductionHypothesis).trans
          (List.map_id' members)
      rw [optimize, unchanged]
      split
      · simpa [isQuery] using several _ rfl
      · exact spliced_of_different different

/-- A query of two or more settled trees with another combinator is settled. -/
theorem Settled.of_members
    {combinator : Combinator}
    {members : List (Formula Condition)}
    (two_le : 2 ≤ members.length)
    (different : ∀ member ∈ members,
      member.ruleTree.combinesBy combinator = false)
    (settled : ∀ member ∈ members, member.ruleTree.Settled) :
    (RuleTree.query combinator (Formula.ruleTrees members)).Settled := by
  rw [Formula.ruleTrees_eq_map]
  refine .query ?_ ?_ ?_
  · simpa using different
  · intro member single
    have length_eq := congrArg List.length single
    simp only [List.length_map, List.length_singleton] at length_eq
    omega
  · simpa using settled

/-- The tree of a proper formula without negation is settled. -/
theorem settled_ruleTree
    {formula : Formula Condition}
    (proper : formula.Proper)
    (positive : formula.Positive) :
    formula.ruleTree.Settled := by
  induction formula using Formula.memberInduction with
  | leaf condition => exact .rule _
  | compound combinator members inductionHypothesis =>
      obtain ⟨two_le, each⟩ := (Formula.proper_compound_iff combinator).mp proper
      have positive := (Formula.positive_compound_iff combinator).mp positive
      rw [Formula.ruleTree_compound]
      refine .of_members two_le (fun member inMembers => ?_) fun member inMembers =>
        inductionHypothesis member inMembers (each member inMembers).2
          (positive member inMembers)
      rw [Formula.combinesBy_ruleTree combinator (positive member inMembers)]
      exact (each member inMembers).1
  | not _ _ => cases positive

/-- A conjunction of two or more members has its own structure for a root tree. -/
theorem rootTree_of_two_le
    {members : List (Formula Condition)}
    (two_le : 2 ≤ members.length) :
    (Formula.and members).rootTree = (Formula.and members).ruleTree := by
  match members with
  | [] => simp at two_le
  | [_] => simp at two_le
  | first :: _ :: _ => cases first <;> rfl

/-- Two or more trees are gathered under "and". -/
theorem gather_of_two_le
    {trees : List RuleTree}
    (two_le : 2 ≤ trees.length) :
    gather trees = spliced .and trees := by
  match trees with
  | [] => simp at two_le
  | [_] => simp at two_le
  | first :: _ :: _ => cases first <;> rfl

/-- The trees on the stack are gathered into the root tree of the conjunction of
their formulas, and this tree is settled. -/
theorem gather_ruleTree
    {formulas : List (Formula Condition)}
    (proper : ∀ formula ∈ formulas, formula.Proper)
    (positive : ∀ formula ∈ formulas, formula.Positive) :
    gather (formulas.map Formula.ruleTree) =
        (Formula.conjunction formulas).rootTree ∧
      (gather (formulas.map Formula.ruleTree)).Settled := by
  match formulas with
  | [] => exact ⟨rfl, .query (by simp) (by simp) (by simp)⟩
  | [single] =>
      have properSingle := proper single (by simp)
      have positiveSingle := positive single (by simp)
      have settled := settled_ruleTree properSingle positiveSingle
      cases properSingle with
      | leaf condition =>
          refine ⟨rfl, .query ?_ ?_ ?_⟩
          · simp [partsBy, Formula.ruleTree, combinesBy]
          · simp [partsBy, Formula.ruleTree, isQuery]
          · simpa [partsBy, Formula.ruleTree] using Settled.rule _
      | @and members two_le _ _ =>
          have same : Formula.conjunction [.and members] = .and members := by
            simp [Formula.conjunction]
          rw [same, rootTree_of_two_le two_le]
          exact ⟨rfl, settled⟩
      | or _ _ _ => exact ⟨rfl, settled⟩
      | not _ => cases positiveSingle
  | first :: second :: rest =>
      have whole : (Formula.conjunction (first :: second :: rest)).Proper :=
        .combine (by simp) proper .and
      have gathered : gather ((first :: second :: rest).map Formula.ruleTree) =
          (Formula.conjunction (first :: second :: rest)).ruleTree := by
        rw [gather_of_two_le (by simp), Formula.spliced_ruleTree .and positive]
        rfl
      rw [gathered]
      refine ⟨?_, settled_ruleTree whole (.combine positive .and)⟩
      cases whole with
      | and two_le _ _ => exact (rootTree_of_two_le two_le).symm

/-- The trees on the stack become the root tree of the conjunction of their
formulas. -/
theorem optimize_gather
    {expressions : List (Expression Condition)}
    (negationFree : ∀ expression ∈ expressions, expression.NegationFree) :
    (gather ((expressions.map formula).map Formula.ruleTree)).optimize =
      (Formula.conjunction (expressions.map formula)).rootTree := by
  have proper : ∀ inner ∈ expressions.map formula, inner.Proper := by
    simp [proper_formula]
  have positive : ∀ inner ∈ expressions.map formula, inner.Positive := by
    simpa using fun expression inExpressions =>
      (negationFree expression inExpressions).positive_formula
  obtain ⟨gathered, settled⟩ := gather_ruleTree proper positive
  rw [optimize_of_settled settled, gathered]

/-- The rule tree of a domain is the root tree of its formula. -/
theorem ofDomain_eq_ok
    {domain : Domain}
    {tree : RuleTree}
    (accepted : ofDomain domain = .ok tree) :
    ∃ expressions : List (Expression Condition),
      domain = Expression.write expressions ∧
        (∀ expression ∈ expressions, expression.NegationFree) ∧
        tree = (Formula.conjunction (expressions.map formula)).rootTree := by
  obtain ⟨trees, read, rfl⟩ : ∃ trees, treesOf 0 domain = .ok trees ∧
      (gather trees).optimize = tree := by
    obtain ⟨trees, read, last⟩ := bind_eq_ok_iff.mp accepted
    exact ⟨trees, read, by simpa [pure, Except.pure] using last⟩
  obtain ⟨expressions, domain_eq, negationFree, rfl⟩ :=
    exists_write_of_treesOf read
  exact ⟨expressions, domain_eq, negationFree, optimize_gather negationFree⟩

/-- Expressions without negation are read as the trees of their formulas. -/
theorem treesOf_write
    {expressions : List (Expression Condition)}
    (negationFree : ∀ expression ∈ expressions, expression.NegationFree)
    (position : Nat) :
    treesOf position (Expression.write expressions) =
      .ok ((expressions.map formula).map Formula.ruleTree) := by
  induction expressions generalizing position with
  | nil => rfl
  | cons expression rest inductionHypothesis =>
      simp only [List.mem_cons, forall_eq_or_imp] at negationFree
      rw [write_cons, treesOf_items_append negationFree.1,
        inductionHypothesis negationFree.2]
      rfl

/-- A domain of expressions without negation has a rule tree. -/
theorem ofDomain_write
    {expressions : List (Expression Condition)}
    (negationFree : ∀ expression ∈ expressions, expression.NegationFree) :
    ofDomain (Expression.write expressions) =
      .ok (Formula.conjunction (expressions.map formula)).rootTree := by
  rw [ofDomain, treesOf_write negationFree, ← optimize_gather negationFree]
  rfl

end RuleTree

end DomainSql
