import DomainSql.Proofs.BindingRun
import DomainSql.Proofs.BranchingFormulas

/-!
# Printing with several members

A formula is printed in prefix notation with one marker less than members in front of
every group. The markers are read as operators with two sides that are nested to the
left, and what they make is spliced into one group again, together with the members of
members of the same kind. So reading what has been printed builds the formula again
through the smart constructors, which leave a flat formula as it is.
-/

namespace DomainSql
namespace Formula

mutual

/-- The items of a formula: in front of the members of a group stand its markers, one
less than there are members. -/
def items : Formula Condition → Domain
  | .leaf condition => [.condition condition]
  | .and members =>
      List.replicate (members.length - 1) (.marker Marker.and.text)
        ++ itemsOf members
  | .or members =>
      List.replicate (members.length - 1) (.marker Marker.or.text)
        ++ itemsOf members
  | .not inner => .marker Marker.not.text :: inner.items

/-- The items of formulas, one after the other. -/
def itemsOf : List (Formula Condition) → Domain
  | [] => []
  | member :: rest => member.items ++ itemsOf rest

end

/-! ## The printed items -/

theorem conditions_replicate_marker
    (count : Nat)
    (text : String) :
    Domain.conditions (List.replicate count (.marker text)) = [] := by
  induction count with
  | zero => rfl
  | succ count inductionHypothesis =>
      rw [List.replicate_succ, Domain.conditions_cons_marker, inductionHypothesis]

mutual

/-- The conditions that are printed are the leaves. -/
theorem conditions_items :
    ∀ tree : Formula Condition, tree.items.conditions = tree.leaves
  | .leaf _ => rfl
  | .and members => by
      rw [items, Domain.conditions_append, conditions_replicate_marker,
        conditions_itemsOf members]
      rfl
  | .or members => by
      rw [items, Domain.conditions_append, conditions_replicate_marker,
        conditions_itemsOf members]
      rfl
  | .not inner => conditions_items inner

theorem conditions_itemsOf :
    ∀ trees : List (Formula Condition),
      (itemsOf trees).conditions = leavesOf trees
  | [] => rfl
  | tree :: rest => by
      rw [itemsOf, Domain.conditions_append, conditions_items tree,
        conditions_itemsOf rest, leavesOf]

end

/-- The expression is printed as the formula is, and its own formula is that formula
built again. -/
structure PrintedBy
    (tree : Formula Condition)
    (expression : Expression Condition) : Prop where
  items_eq : expression.items = tree.items
  formula_eq : expression.formula = tree.rebuild

/-- Members that are printed by expressions each are printed by a sequence of them. -/
theorem exists_expressions_of_members
    {members : List (Formula Condition)}
    (printed : ∀ member ∈ members, ∃ expression, member.PrintedBy expression) :
    ∃ expressions : List (Expression Condition),
      expressions.length = members.length ∧
      Expression.write expressions = itemsOf members ∧
      expressions.map Expression.formula = rebuildAll members := by
  induction members with
  | nil => exact ⟨[], rfl, rfl, rfl⟩
  | cons member rest inductionHypothesis =>
      simp only [List.mem_cons, forall_eq_or_imp] at printed
      obtain ⟨expression, first⟩ := printed.1
      obtain ⟨expressions, length_eq, write_eq, formulas_eq⟩ :=
        inductionHypothesis printed.2
      refine ⟨expression :: expressions, ?_, ?_, ?_⟩
      · rw [List.length_cons, length_eq, List.length_cons]
      · rw [Expression.write_cons, first.items_eq, write_eq, itemsOf]
      · rw [List.map_cons, first.formula_eq, formulas_eq, rebuildAll]

/-- Two or more members are printed behind their markers as one expression, which has
their group for its formula. -/
theorem exists_expression_of_members
    (combinator : Combinator)
    {members : List (Formula Condition)}
    (two_le : 2 ≤ members.length)
    (printed : ∀ member ∈ members, ∃ expression, member.PrintedBy expression) :
    ∃ expression : Expression Condition,
      expression.items =
        List.replicate (members.length - 1)
            (.marker (RuleTree.markerOf combinator).text)
          ++ itemsOf members ∧
      expression.formula = combine combinator (rebuildAll members) := by
  obtain ⟨expressions, length_eq, write_eq, formulas_eq⟩ :=
    exists_expressions_of_members printed
  rw [← length_eq, ← write_eq, ← formulas_eq]
  rw [← length_eq] at two_le
  match expressions with
  | [] => simp at two_le
  | [_] => simp at two_le
  | first :: second :: rest =>
      exact ⟨_, Expression.items_foldl_combine combinator first (second :: rest),
        Expression.formula_foldl_combine_of_two combinator first second rest⟩

/-- A branching formula is printed by an expression. -/
theorem Branching.exists_expression
    {tree : Formula Condition}
    (branching : tree.Branching) :
    ∃ expression, tree.PrintedBy expression := by
  induction branching with
  | leaf condition => exact ⟨.leaf condition, rfl, rfl⟩
  | and two_le _ inductionHypothesis =>
      obtain ⟨expression, items_eq, formula_eq⟩ :=
        exists_expression_of_members .and two_le inductionHypothesis
      exact ⟨expression, items_eq, formula_eq⟩
  | or two_le _ inductionHypothesis =>
      obtain ⟨expression, items_eq, formula_eq⟩ :=
        exists_expression_of_members .or two_le inductionHypothesis
      exact ⟨expression, items_eq, formula_eq⟩
  | not _ inductionHypothesis =>
      obtain ⟨expression, printed⟩ := inductionHypothesis
      refine ⟨.not expression, ?_, ?_⟩
      · rw [Expression.items, printed.items_eq, items]
      · rw [Expression.formula, printed.formula_eq, rebuild]

/-! ## Reading what has been printed -/

theorem Branching.parsed_items
    {tree : Formula Condition}
    (branching : tree.Branching) :
    tree.items.parsed = .ok (conjunction [tree.rebuild]) := by
  obtain ⟨expression, printed⟩ := branching.exists_expression
  have parsed := Expression.parsed_write [expression]
  simpa [printed.items_eq, printed.formula_eq] using parsed

/-- A flat conjunction is built again to itself, also as the only member of a
conjunction. -/
theorem conjunction_rebuild_of_isFlat
    {Leaf : Type}
    {tree : Formula Leaf}
    (isConjunction : tree.isAnd = true)
    (flat : tree.isFlat = true) :
    conjunction [tree.rebuild] = tree := by
  cases tree with
  | and members =>
      rw [rebuild_of_isFlat flat]
      simp [conjunction]
  | _ => cases isConjunction

/-- Let every group of a tree have two members at least. What is printed of the tree is
read as the conjunction of the one tree that its leaves are built to again. If an
action succeeds on the leaves from the last to the first, reading with the action
succeeds too, and gives the same formula with the results in the place of the leaves.
A flat conjunction is read back unchanged. -/
theorem items_are_read_back
    {tree : Formula Condition}
    (branching : tree.Branching) :
    tree.items.parsed = .ok (conjunction [tree.rebuild]) ∧
    (∀ {Leaf State : Type}
      (act : Condition → ExceptT Error (StateM State) Leaf)
      (state after : State)
      (results : List Leaf),
      outcome (tree.leaves.reverse.mapM act) state = (.ok results, after) →
      ∃ bound : Formula (Condition × Leaf),
        bound.map Prod.fst = conjunction [tree.rebuild] ∧
        bound.leaves.map Prod.snd = results.reverse ∧
        outcome (tree.items.formulaWith act) state =
          (.ok (bound.map Prod.snd), after)) ∧
    (tree.isAnd = true → tree.isFlat = true → tree.items.parsed = .ok tree) := by
  refine ⟨branching.parsed_items, ?_, ?_⟩
  · intro Leaf State act state after results ran
    rw [← conditions_items] at ran
    exact Domain.formulaWith_of_bindRun branching.parsed_items ran
  · intro isConjunction flat
    rw [branching.parsed_items, conjunction_rebuild_of_isFlat isConjunction flat]

/-- A disjunction takes the members of the disjunction among its members. A flat
conjunction comes back as it is. -/
theorem nested_items_are_read_back :
    let test : String → Formula Condition := fun field =>
      .leaf ⟨field, "=", .literal .null⟩
    let nested : Formula Condition :=
      .or [.and [test "a", test "b", test "c"], .or [.not (test "d"), test "e"]]
    let flat : Formula Condition := .and [.or [test "a", test "b"], .not (test "c")]
    (nested.Branching ∧
      nested.items.parsed = .ok
        (.and [.or [.and [test "a", test "b", test "c"], .not (test "d"), test "e"]])) ∧
    flat.Branching ∧ flat.isAnd = true ∧ flat.isFlat = true ∧
      flat.items.parsed = .ok flat := by
  intro test nested flat
  have leaf : ∀ field, (test field).Branching := fun _ => .leaf _
  have conjunction : (Formula.and [test "a", test "b", test "c"]).Branching :=
    .and (by simp) (by simp [leaf])
  have disjunction : (Formula.or [.not (test "d"), test "e"]).Branching :=
    .or (by simp) (by simp [leaf, Branching.not])
  have nestedBranching : nested.Branching :=
    .or (by simp) (by simp [conjunction, disjunction])
  have other : (Formula.or [test "a", test "b"]).Branching :=
    .or (by simp) (by simp [leaf])
  have flatBranching : flat.Branching :=
    .and (by simp) (by simp [other, leaf, Branching.not])
  exact ⟨⟨nestedBranching, (items_are_read_back nestedBranching).1⟩, flatBranching, rfl,
    rfl, (items_are_read_back flatBranching).2.2 rfl rfl⟩

end Formula
end DomainSql
