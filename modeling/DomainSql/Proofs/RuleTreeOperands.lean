import DomainSql.Proofs.RuleTreeReading
import Mathlib.Data.List.Induction

/-!
# The domain of a rule tree

The domain of a rule tree is written by expressions, its operands: a rule by its
condition, and a query with "and" by the operands of its members one after the other.
A query with "or" writes its markers in front, and they combine the first operands of
its members, whichever members these come from.
-/

namespace DomainSql

namespace Domain

/-- The formula of a domain over its conditions, whatever their operators. -/
def parsed (domain : Domain) : Except Error (Formula Condition) :=
  domain.formulaWith pure

end Domain

namespace Condition

/-- A condition after a trip through the words of rules. -/
def reworded (condition : Condition) : Condition :=
  (Rule.ofCondition condition).toCondition

end Condition

namespace Expression

variable {Leaf : Type}

theorem bindAll_pure
    {Action : Type → Type}
    [Monad Action]
    [LawfulMonad Action]
    (expressions : List (Expression Condition)) :
    bindAll (pure : Condition → Action Condition) expressions =
      pure expressions := by
  have single : ∀ expression : Expression Condition,
      expression.bind (pure : Condition → Action Condition) =
        pure expression := by
    intro expression
    induction expression with
    | leaf condition => simp [Expression.bind]
    | and left right leftHypothesis rightHypothesis
    | or left right leftHypothesis rightHypothesis =>
        simp [Expression.bind, leftHypothesis, rightHypothesis]
    | not inner inductionHypothesis =>
        simp [Expression.bind, inductionHypothesis]
  induction expressions with
  | nil => rfl
  | cons expression rest inductionHypothesis =>
      simp [bindAll, single, inductionHypothesis]

/-- The formula of a written domain is the conjunction of the formulas of its
expressions. -/
theorem parsed_write (expressions : List (Expression Condition)) :
    (write expressions).parsed =
      .ok (.conjunction (expressions.map formula)) := by
  rw [Domain.parsed, formulaWith_write, bindAll_pure]
  rfl

/-! ## As many markers as there are gaps -/

/-- Expressions that are combined from the left are written with all their markers in
front. -/
theorem items_foldl_combine
    (combinator : Combinator)
    (first : Expression Condition)
    (rest : List (Expression Condition)) :
    (rest.foldl (combine combinator) first).items =
      List.replicate rest.length (.marker (RuleTree.markerOf combinator).text)
        ++ write (first :: rest) := by
  induction rest generalizing first with
  | nil => simp
  | cons second rest inductionHypothesis =>
      -- The marker of the first two stands behind those of the rest.
      rw [List.foldl_cons, inductionHypothesis, List.length_cons,
        List.replicate_succ']
      simp [items_combine]

/-- Expressions that are combined from the left have one group for their formula, into
which the groups of the first ones are spliced again at every step. -/
theorem formula_foldl_combine
    (combinator : Combinator)
    {whole : Expression Leaf}
    {formulas : List (Formula Leaf)}
    (formula_eq : whole.formula = Formula.combine combinator formulas)
    (rest : List (Expression Leaf)) :
    (rest.foldl (combine combinator) whole).formula =
      Formula.combine combinator (formulas ++ rest.map formula) := by
  induction rest generalizing whole formulas with
  | nil => simpa using formula_eq
  | cons next rest inductionHypothesis =>
      have extended : (combine combinator whole next).formula =
          Formula.combine combinator (formulas ++ [next.formula]) := by
        cases combinator <;>
          simp [combine, formula, formula_eq, Formula.combine, Formula.conjunction,
            Formula.disjunction]
      rw [List.foldl_cons, inductionHypothesis extended, List.map_cons,
        List.append_assoc, List.singleton_append]

/-- Two or more expressions are combined to one expression of their formulas. -/
theorem formula_foldl_combine_of_two
    (combinator : Combinator)
    (first second : Expression Leaf)
    (rest : List (Expression Leaf)) :
    ((second :: rest).foldl (combine combinator) first).formula =
      Formula.combine combinator ((first :: second :: rest).map formula) :=
  formula_foldl_combine combinator (formula_combine combinator first second) rest

/-! ## Markers in front of a sequence -/

/-- What "or" markers in front of a sequence make of it. -/
def orFirst : Nat → List (Expression Leaf) → List (Expression Leaf)
  | 0, expressions => expressions
  | markers + 1, expressions =>
      match orFirst markers expressions with
      | left :: right :: rest => .or left right :: rest
      | short => short

/-- Markers that find their operands take one off for each. -/
theorem length_orFirst
    {markers : Nat}
    {expressions : List (Expression Leaf)}
    (enough : markers < expressions.length) :
    (orFirst markers expressions).length = expressions.length - markers := by
  induction markers with
  | zero => rfl
  | succ markers inductionHypothesis =>
      have length_eq := inductionHypothesis (by omega)
      rw [orFirst]
      match found : orFirst markers expressions with
      | left :: right :: rest =>
          simp only [found, List.length_cons] at length_eq ⊢
          omega
      | [] => simp [found] at length_eq; omega
      | [_] => simp [found] at length_eq; omega

/-- Markers in front of a sequence that is long enough are part of what they make
of it. -/
theorem write_orFirst
    {markers : Nat}
    {expressions : List (Expression Condition)}
    (enough : markers < expressions.length) :
    write (orFirst markers expressions) =
      List.replicate markers (.marker Marker.or.text) ++ write expressions := by
  induction markers with
  | zero => rfl
  | succ markers inductionHypothesis =>
      have length_eq :=
        length_orFirst (show markers < expressions.length by omega)
      have written := inductionHypothesis (by omega)
      rw [orFirst]
      match found : orFirst markers expressions with
      | left :: right :: rest =>
          rw [found] at written
          simp only [List.replicate_succ, List.cons_append, ← written]
          simp [items]
      | [] => simp [found] at length_eq; omega
      | [_] => simp [found] at length_eq; omega

/-- Markers that find their operands do not touch what is behind them. -/
theorem orFirst_append
    {markers : Nat}
    {front : List (Expression Leaf)}
    (enough : markers < front.length)
    (back : List (Expression Leaf)) :
    orFirst markers (front ++ back) = orFirst markers front ++ back := by
  induction markers with
  | zero => rfl
  | succ markers inductionHypothesis =>
      have length_eq := length_orFirst (show markers < front.length by omega)
      rw [orFirst, orFirst, inductionHypothesis (by omega)]
      match found : orFirst markers front with
      | left :: right :: rest => rfl
      | [] => simp [found] at length_eq; omega
      | [_] => simp [found] at length_eq; omega

/-- Markers leave the leaves of a sequence as they are. -/
theorem leavesOf_orFirst
    (markers : Nat)
    (expressions : List (Expression Leaf)) :
    Formula.leavesOf ((orFirst markers expressions).map formula) =
      Formula.leavesOf (expressions.map formula) := by
  induction markers with
  | zero => rfl
  | succ markers inductionHypothesis =>
      rw [orFirst, ← inductionHypothesis]
      split
      · simp_all [formula, Formula.leavesOf]
      · rfl

theorem negationFree_of_mem_orFirst
    {markers : Nat}
    {expressions : List (Expression Leaf)}
    (negationFree : ∀ expression ∈ expressions, expression.NegationFree) :
    ∀ expression ∈ orFirst markers expressions, expression.NegationFree := by
  induction markers with
  | zero => exact negationFree
  | succ markers inductionHypothesis =>
      rw [orFirst]
      split
      · rename_i left right rest found
        simp only [found, List.mem_cons, forall_eq_or_imp] at inductionHypothesis
        simpa [NegationFree, inductionHypothesis.1, inductionHypothesis.2.1]
          using inductionHypothesis.2.2
      · exact inductionHypothesis

/-- As many markers as there are gaps combine a sequence from the left. -/
theorem orFirst_length
    (first : Expression Leaf)
    (rest : List (Expression Leaf)) :
    orFirst rest.length (first :: rest) = [rest.foldl (combine .or) first] := by
  induction rest using List.reverseRecOn with
  | nil => rfl
  | append_singleton rest last inductionHypothesis =>
      rw [List.length_append, List.length_singleton, orFirst,
        ← List.cons_append, orFirst_append (by simp), inductionHypothesis,
        List.foldl_append]
      rfl

/-- As many markers as there are gaps make one disjunction of a sequence. -/
theorem orFirst_all
    (first : Expression Leaf)
    (rest : List (Expression Leaf))
    (nonempty : rest ≠ []) :
    ∃ whole, orFirst rest.length (first :: rest) = [whole] ∧
      whole.formula =
        .disjunction ((first :: rest).map formula) := by
  obtain ⟨second, others, rfl⟩ := List.exists_cons_of_ne_nil nonempty
  exact ⟨_, orFirst_length first _,
    formula_foldl_combine_of_two .or first second others⟩

end Expression

namespace RuleTree

open Expression

/-! ## Operands of a tree -/

mutual

/-- The expressions that the domain of a tree is written by. -/
def operands : RuleTree → List (Expression Condition)
  | .rule inner => [.leaf inner.toCondition]
  | .query .and members => operandsOf members
  | .query .or members => orFirst (members.length - 1) (operandsOf members)

/-- The expressions that the domains of trees are written by. -/
def operandsOf : List RuleTree → List (Expression Condition)
  | [] => []
  | member :: rest => member.operands ++ operandsOf rest

end

/-- Every query has a member. -/
inductive Filled : RuleTree → Prop
  | rule (inner : Rule) : Filled (.rule inner)
  | query
      {combinator : Combinator}
      {members : List RuleTree}
      (nonempty : members ≠ [])
      (filled : ∀ member ∈ members, Filled member) :
      Filled (.query combinator members)

@[simp] theorem operandsOf_append (front back : List RuleTree) :
    operandsOf (front ++ back) = operandsOf front ++ operandsOf back := by
  induction front with
  | nil => rfl
  | cons member rest inductionHypothesis =>
      simp [operandsOf, inductionHypothesis]

theorem operandsOf_eq_flatMap (trees : List RuleTree) :
    operandsOf trees = trees.flatMap operands := by
  induction trees with
  | nil => rfl
  | cons tree rest inductionHypothesis =>
      simp [operandsOf, inductionHypothesis]

/-- Trees with an operand each have as many operands as there are trees. -/
theorem length_le_length_operandsOf
    {trees : List RuleTree}
    (nonempty : ∀ tree ∈ trees, tree.operands ≠ []) :
    trees.length ≤ (operandsOf trees).length := by
  rw [operandsOf_eq_flatMap]
  exact Formula.length_le_length_flatMap nonempty

/-- A tree with two operands among them makes the operands more than the trees. -/
theorem length_lt_length_operandsOf
    {trees : List RuleTree}
    (nonempty : ∀ tree ∈ trees, tree.operands ≠ [])
    {wide : RuleTree}
    (inTrees : wide ∈ trees)
    (two_le : 2 ≤ wide.operands.length) :
    trees.length < (operandsOf trees).length := by
  obtain ⟨front, back, rfl⟩ := List.append_of_mem inTrees
  have frontLength : front.length ≤ (operandsOf front).length :=
    length_le_length_operandsOf fun tree inFront => nonempty tree (by simp [inFront])
  have backLength : back.length ≤ (operandsOf back).length :=
    length_le_length_operandsOf fun tree inBack => nonempty tree (by simp [inBack])
  simp only [operandsOf_append, operandsOf, List.length_append,
    List.length_cons]
  omega

/-- The markers of a query find their operands if each member has one. -/
theorem markers_lt_length_operandsOf
    {trees : List RuleTree}
    (filled : trees ≠ [])
    (nonempty : ∀ tree ∈ trees, tree.operands ≠ []) :
    trees.length - 1 < (operandsOf trees).length := by
  have enough := length_le_length_operandsOf nonempty
  have positive := List.length_pos_iff.mpr filled
  omega

theorem Filled.operands_ne_nil
    {tree : RuleTree}
    (filled : tree.Filled) :
    tree.operands ≠ [] := by
  induction filled with
  | rule inner => simp [operands]
  | @query combinator members nonempty _ inductionHypothesis =>
      have fewer := markers_lt_length_operandsOf nonempty inductionHypothesis
      cases combinator with
      | and =>
          rw [operands]
          exact List.length_pos_iff.mp (by omega)
      | or =>
          have length_eq := length_orFirst fewer
          rw [operands]
          exact List.length_pos_iff.mp (by omega)

/-- Trees whose domains are written by their operands are written so together. -/
theorem toDomainOf_eq_write
    {trees : List RuleTree}
    (written : ∀ tree ∈ trees, tree.toDomain = Expression.write tree.operands) :
    toDomainOf trees = Expression.write (operandsOf trees) := by
  induction trees with
  | nil => rfl
  | cons tree rest inductionHypothesis =>
      simp only [List.mem_cons, forall_eq_or_imp] at written
      rw [toDomainOf, operandsOf, write_append, written.1,
        inductionHypothesis written.2]

/-- The domain of a filled tree is written by its operands. -/
theorem Filled.toDomain_eq_write
    {tree : RuleTree}
    (filled : tree.Filled) :
    tree.toDomain = Expression.write tree.operands := by
  induction filled with
  | rule inner => simp [toDomain, operands, items]
  | @query combinator members nonempty filled inductionHypothesis =>
      have writtenAll := toDomainOf_eq_write inductionHypothesis
      cases combinator with
      | and => rw [toDomain, operands, writtenAll]
      | or =>
          rw [toDomain, operands, write_orFirst, writtenAll]
          exact markers_lt_length_operandsOf nonempty fun member inMembers =>
            (filled member inMembers).operands_ne_nil

mutual

/-- No operand of a tree has a negation. -/
theorem negationFree_of_mem_operands :
    ∀ (tree : RuleTree), ∀ expression ∈ tree.operands,
      expression.NegationFree
  | .rule inner => by simp [operands, NegationFree]
  | .query .and members => by
      rw [operands]
      exact negationFree_of_mem_operandsOf members
  | .query .or members => by
      rw [operands]
      exact negationFree_of_mem_orFirst (negationFree_of_mem_operandsOf members)

theorem negationFree_of_mem_operandsOf :
    ∀ (trees : List RuleTree), ∀ expression ∈ operandsOf trees,
      expression.NegationFree
  | [] => by simp [operandsOf]
  | tree :: rest => by
      intro expression inOperands
      rw [operandsOf, List.mem_append] at inOperands
      rcases inOperands with inFirst | inRest
      · exact negationFree_of_mem_operands tree expression inFirst
      · exact negationFree_of_mem_operandsOf rest expression inRest

end

mutual

/-- The leaves of the operands of a tree are its rules, in the words of
conditions. -/
theorem leavesOf_operands :
    ∀ tree : RuleTree,
      Formula.leavesOf (tree.operands.map formula) =
        tree.rules.map Rule.toCondition
  | .rule inner => rfl
  | .query .and members => by
      rw [operands, rules]
      exact leavesOf_operandsOf members
  | .query .or members => by
      rw [operands, rules, leavesOf_orFirst]
      exact leavesOf_operandsOf members

theorem leavesOf_operandsOf :
    ∀ trees : List RuleTree,
      Formula.leavesOf ((operandsOf trees).map formula) =
        (rulesOf trees).map Rule.toCondition
  | [] => rfl
  | tree :: rest => by
      rw [operandsOf, rulesOf, List.map_append, Formula.leavesOf_append,
        List.map_append, leavesOf_operands tree, leavesOf_operandsOf rest]

end

end RuleTree

end DomainSql
