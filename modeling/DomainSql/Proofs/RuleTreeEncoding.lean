import DomainSql.Proofs.DomainEncoding
import DomainSql.RuleTree.Json

/-!
# Encoding rule trees

Queries and rules have no tags either: they are told apart by the keys of their objects.
The keys of a rule are fixed, and its operand stands below the key `value`, where no key
of the operand can be taken for one of the rule. So whatever a tree is made of, the
decoder gets it back from its encoding, but for numbers that are not finite.
-/

namespace DomainSql

/-- The numbers in a rule. -/
def Rule.numbers (rule : Rule) : List Literal :=
  rule.operand.numbers

/-- The numbers in a rule tree, from left to right. -/
def RuleTree.numbers (tree : RuleTree) : List Literal :=
  tree.rules.flatMap Rule.numbers

theorem Rule.ofFields_eq_ok_iff
    {operand : Json}
    {rule : Rule} :
    ofFields [("field", .str rule.field), ("operator", .str rule.operator),
        ("value", operand)] = .ok rule ↔
      Operand.ofJson operand = .ok rule.operand := by
  obtain ⟨field, operator, value⟩ := rule
  change ((Operand.ofJson operand).mapError (RuleError.value field) >>= fun operand =>
    pure (⟨field, operator, operand⟩ : Rule)) = _ ↔ _
  cases Operand.ofJson operand with
  | error error => simp [Except.mapError, bind, Except.bind]
  | ok decoded => simp [Except.mapError, ok_bind, pure, Except.pure]

@[simp] theorem Combinator.ofText?_text (combinator : Combinator) :
    ofText? combinator.text = some combinator := by
  cases combinator <;> decide +kernel

namespace RuleTree

/-- A rule is decoded as a rule, since it has neither of the keys of a query. -/
theorem ofJson_rule_iff
    (order : Json.KeyOrder)
    (rule : Rule) :
    ofJson (rule.toJson order) = .ok (.rule rule) ↔
      Rule.ofFields [("field", .str rule.field), ("operator", .str rule.operator),
        ("value", rule.operand.toJson order)] = .ok rule := by
  rw [Rule.toJson, ofJson]
  simp [bind_eq_ok_iff, pure, Except.pure]

/-- A query is decoded when its members are. -/
theorem ofJson_query_iff
    {combinator : Combinator}
    {members : List RuleTree}
    {values : List Json} :
    ofJson (.obj [("combinator", .str combinator.text), ("rules", .arr values)]) =
        .ok (.query combinator members) ↔
      membersOfItems values = .ok members := by
  rw [ofJson]
  simp [combinatorOf, membersOfFields, membersOfValue, Json.text?, bind_eq_ok_iff, pure,
    Except.pure]

mutual

theorem ofJson_toJson_iff
    (order : Json.KeyOrder) : ∀ tree : RuleTree,
    ofJson (tree.toJson order) = .ok tree ↔
      ∀ rule ∈ tree.rules, ∀ number ∈ rule.numbers, number.IsFinite
  | .rule inner => by
      rw [toJson, ofJson_rule_iff, Rule.ofFields_eq_ok_iff, Operand.ofJson_toJson_iff, rules]
      simp [Rule.numbers]
  | .query combinator members => by
      rw [toJson, ofJson_query_iff, rules, membersOfItems_toJsonMembers_iff order members]

theorem membersOfItems_toJsonMembers_iff
    (order : Json.KeyOrder) : ∀ trees : List RuleTree,
    membersOfItems (toJsonMembers order trees) = .ok trees ↔
      ∀ rule ∈ rulesOf trees, ∀ number ∈ rule.numbers, number.IsFinite
  | [] => by simp [toJsonMembers, membersOfItems, rulesOf]
  | tree :: rest => by
      rw [toJsonMembers, membersOfItems, rulesOf, List.forall_mem_append,
        ← ofJson_toJson_iff order tree, ← membersOfItems_toJsonMembers_iff order rest,
        bind_eq_ok_iff]
      simp [bind_eq_ok_iff, pure, Except.pure]

end

/-- What is decoded from the encoding of a rule tree is that tree, exactly when all of
its numbers are finite. -/
theorem encoded_tree_is_decoded_iff_finite
    (order : Json.KeyOrder)
    (tree : RuleTree) :
    ofJson (tree.toJson order) = .ok tree ↔ ∀ number ∈ tree.numbers, number.IsFinite := by
  rw [ofJson_toJson_iff, numbers, List.forall_mem_flatMap]

end RuleTree

end DomainSql
