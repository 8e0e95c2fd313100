import DomainSql.Proofs.DomainTexts
import DomainSql.Proofs.RuleTreeRoundTrip
import DomainSql.RuleTree.Json

/-!
# How deep the text of a rule tree is

In the text of a domain every value stands two levels deep, however many markers there
are in front of it. In the text of a rule tree a query takes two levels, one for its
object and one for the array of its members. A marker makes at most one more query, so
what the text of the tree is deeper is bounded by the markers of the domain.
-/

namespace DomainSql

theorem Json.depthOfItems_le_iff
    {items : List Json}
    {bound : Nat} :
    depthOfItems items ≤ bound ↔ ∀ item ∈ items, item.depth ≤ bound := by
  induction items with
  | nil => simp [depthOfItems]
  | cons item rest inductionHypothesis =>
      rw [depthOfItems, max_le_iff, inductionHypothesis, List.forall_mem_cons]

/-- How many markers there are in a domain. -/
def Domain.markers (domain : Domain) : Nat :=
  domain.countP fun item => item.condition?.isNone

namespace Domain

@[simp] theorem markers_nil : markers [] = 0 := rfl

@[simp] theorem markers_cons_condition
    (condition : Condition)
    (rest : Domain) :
    markers (.condition condition :: rest) = markers rest := rfl

@[simp] theorem markers_cons_marker
    (text : String)
    (rest : Domain) :
    markers (.marker text :: rest) = markers rest + 1 :=
  List.countP_cons_of_pos rfl

@[simp] theorem markers_append (front back : Domain) :
    markers (front ++ back) = markers front + markers back :=
  List.countP_append

end Domain

/-- In the text of a domain the operand of a condition stands two levels deep. -/
theorem Domain.depth_operand_le
    (order : Json.KeyOrder)
    {domain : Domain}
    {condition : Condition}
    (inDomain : condition ∈ domain.conditions) :
    (condition.operand.toJson order).depth + 2 ≤ (domain.toJson order).depth := by
  obtain ⟨item, isItem, isCondition⟩ := List.mem_filterMap.mp inDomain
  cases item with
  | marker text => cases isCondition
  | condition inner =>
      cases isCondition
      have below := Json.depthOfItems_le_iff.mp (le_refl _) _
        (List.mem_map_of_mem (f := Item.toJson order) isItem)
      simp only [Item.toJson, Condition.toJson, Json.depth, Json.depthOfItems] at below
      simp only [Domain.toJson, Json.depth]
      omega

namespace RuleTree

theorem depth_rule
    (order : Json.KeyOrder)
    (inner : Rule) :
    ((rule inner).toJson order).depth = (inner.operand.toJson order).depth + 1 := by
  simp [toJson, Rule.toJson, Json.depth, Json.depthOfFields]

/-- In the text of a query the members stand two levels deep. -/
theorem depth_query_le_iff
    {order : Json.KeyOrder}
    {combinator : Combinator}
    {members : List RuleTree}
    {bound : Nat} :
    ((query combinator members).toJson order).depth ≤ bound + 2 ↔
      ∀ member ∈ members, (member.toJson order).depth ≤ bound := by
  have encoded : toJsonMembers order members = members.map (toJson order) := by
    induction members with
    | nil => rfl
    | cons member rest inductionHypothesis =>
        rw [toJsonMembers, inductionHypothesis, List.map_cons]
  have depth_eq : ((query combinator members).toJson order).depth =
      Json.depthOfItems (members.map (toJson order)) + 2 := by
    simp [toJson, Json.depth, Json.depthOfFields, encoded]
  rw [depth_eq, Nat.add_le_add_iff_right, Json.depthOfItems_le_iff, List.forall_mem_map]

end RuleTree

namespace Formula

/-- The members of a formula under a combinator have no deeper texts than the formula. -/
theorem depth_ruleTree_of_mem_membersBy
    (order : Json.KeyOrder)
    (combinator : Combinator)
    (formula : Formula Condition) :
    ∀ member ∈ formula.membersBy combinator,
      (member.ruleTree.toJson order).depth ≤ (formula.ruleTree.toJson order).depth := by
  refine forall_mem_membersBy ?_ fun _ => le_refl _
  rintro members rfl member inMembers
  rw [ruleTree_compound, ruleTrees_eq_map]
  exact RuleTree.depth_query_le_iff.mp (Nat.le_add_right _ 2) _ (List.mem_map_of_mem inMembers)

/-- Combining formulas puts their texts at most two levels deeper. -/
theorem depth_ruleTree_combine_le
    {order : Json.KeyOrder}
    {formulas : List (Formula Condition)}
    {bound : Nat}
    (below : ∀ formula ∈ formulas, (formula.ruleTree.toJson order).depth ≤ bound)
    (combinator : Combinator) :
    ((combine combinator formulas).ruleTree.toJson order).depth ≤ bound + 2 := by
  rw [ruleTree_combine, RuleTree.depth_query_le_iff, List.forall_mem_map]
  intro member inMembers
  obtain ⟨formula, inFormulas, inMembers⟩ := List.mem_flatMap.mp inMembers
  exact (depth_ruleTree_of_mem_membersBy order combinator formula member inMembers).trans
    (below formula inFormulas)

theorem depth_ruleTree_combine_pair_le
    (order : Json.KeyOrder)
    (combinator : Combinator)
    (left right : Formula Condition) :
    ((combine combinator [left, right]).ruleTree.toJson order).depth ≤
      max (left.ruleTree.toJson order).depth (right.ruleTree.toJson order).depth + 2 :=
  depth_ruleTree_combine_le (by simp) combinator

/-- The tree of a whole domain has no deeper text than that of its formula. -/
theorem depth_rootTree_le
    (order : Json.KeyOrder)
    (formula : Formula Condition) :
    (formula.rootTree.toJson order).depth ≤ (formula.ruleTree.toJson order).depth := by
  unfold rootTree
  split
  · rename_i members
    exact depth_ruleTree_of_mem_membersBy order .and (.and [.or members]) _
      List.mem_cons_self
  · exact le_refl _

end Formula

namespace Expression

theorem exists_mem_conditions_items (expression : Expression Condition) :
    ∃ condition, condition ∈ expression.items.conditions := by
  induction expression using combineInduction with
  | leaf condition => exact ⟨condition, List.mem_cons_self⟩
  | combine combinator left right leftHypothesis _ =>
      obtain ⟨condition, inLeft⟩ := leftHypothesis
      exact ⟨condition, by simp [items_combine, inLeft]⟩
  | not inner inductionHypothesis => simpa [items] using inductionHypothesis

/-- Every marker of an expression puts the text of its tree at most two levels deeper. -/
theorem depth_ruleTree_formula_le
    {order : Json.KeyOrder}
    {bound : Nat}
    {expression : Expression Condition}
    (operands : ∀ condition ∈ expression.items.conditions,
      (condition.operand.toJson order).depth ≤ bound) :
    (expression.formula.ruleTree.toJson order).depth ≤
      2 * Domain.markers expression.items + 1 + bound := by
  induction expression using combineInduction with
  | leaf condition =>
      have operand := operands condition List.mem_cons_self
      have same : (Rule.ofCondition condition).operand = condition.operand := rfl
      rw [formula, Formula.ruleTree, RuleTree.depth_rule, same, items,
        Domain.markers_cons_condition, Domain.markers_nil]
      omega
  | combine combinator left right leftHypothesis rightHypothesis =>
      simp only [items_combine, Domain.conditions_cons_marker, Domain.conditions_append,
        List.forall_mem_append] at operands
      have leftBelow := leftHypothesis operands.1
      have rightBelow := rightHypothesis operands.2
      have combined := Formula.depth_ruleTree_combine_pair_le order combinator
        left.formula right.formula
      rw [formula_combine, items_combine, Domain.markers_cons_marker, Domain.markers_append]
      exact combined.trans (by omega)
  | not inner inductionHypothesis =>
      have below := inductionHypothesis operands
      rw [formula, Formula.ruleTree, items, Domain.markers_cons_marker]
      omega

/-- The tree of a sequence of expressions takes two more levels. -/
theorem depth_ruleTree_conjunction_le
    {order : Json.KeyOrder}
    {bound : Nat}
    {expressions : List (Expression Condition)}
    (operands : ∀ condition ∈ (write expressions).conditions,
      (condition.operand.toJson order).depth ≤ bound) :
    ((Formula.conjunction (expressions.map formula)).ruleTree.toJson order).depth ≤
      2 * Domain.markers (write expressions) + 1 + bound + 2 := by
  refine Formula.depth_ruleTree_combine_le (List.forall_mem_map.mpr ?_) .and
  induction expressions with
  | nil => simp
  | cons expression rest inductionHypothesis =>
      rw [write_cons, Domain.conditions_append, List.forall_mem_append] at operands
      rw [write_cons, Domain.markers_append, List.forall_mem_cons]
      have first := depth_ruleTree_formula_le operands.1
      refine ⟨by omega, fun other inRest => ?_⟩
      have others := inductionHypothesis operands.2 other inRest
      omega

end Expression

namespace RuleTree

/-- In the text of its rule tree a value of a domain stands one level deeper than in the
text of the domain, and at most two levels more for every marker. -/
theorem depth_le_of_ofDomain
    (order : Json.KeyOrder)
    {domain : Domain}
    {tree : RuleTree}
    (converted : ofDomain domain = .ok tree) :
    (tree.toJson order).depth ≤ (domain.toJson order).depth + 2 * domain.markers + 1 := by
  obtain ⟨expressions, rfl, _, rfl⟩ := ofDomain_eq_ok converted
  refine (Formula.depth_rootTree_le order _).trans ?_
  cases expressions with
  | nil => exact le_refl 2
  | cons first rest =>
      -- There is a condition, so the text of the domain has the two levels around operands.
      obtain ⟨condition, inFirst⟩ := first.exists_mem_conditions_items
      have inDomain : condition ∈ (Expression.write (first :: rest)).conditions := by
        rw [Expression.write_cons, Domain.conditions_append]
        exact List.mem_append_left _ inFirst
      have deep := Domain.depth_operand_le order inDomain
      have below := @Expression.depth_ruleTree_conjunction_le order _ (first :: rest)
        fun _ isCondition => Nat.le_sub_of_add_le (Domain.depth_operand_le order isCondition)
      omega

end RuleTree
end DomainSql
