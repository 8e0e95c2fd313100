import DomainSql.Proofs.BindingRun

/-!
# Rule trees and formulas of one domain

A domain is read as a rule tree and as a formula by two procedures. On domains with a
negation the first refuses; on the others both accept the same ones, and the rule tree
has the structure of the formula.
-/

namespace DomainSql

namespace Expression

/-- The marker of negation is among the items of an expression exactly when there is
a negation in it. -/
theorem not_mem_items_iff (expression : Expression Condition) :
    .marker Marker.not.text ∉ expression.items ↔ expression.NegationFree := by
  induction expression with
  | leaf condition => simp [items, NegationFree]
  | and left right leftHypothesis rightHypothesis
  | or left right leftHypothesis rightHypothesis =>
      simp [items, NegationFree, Marker.text, ← leftHypothesis, ← rightHypothesis]
  | not inner => simp [items, NegationFree]

/-- The marker of negation is in a written domain exactly when there is a negation in
one of its expressions. -/
theorem not_mem_write_iff (expressions : List (Expression Condition)) :
    .marker Marker.not.text ∉ write expressions ↔
      ∀ expression ∈ expressions, expression.NegationFree := by
  simp [write, ← not_mem_items_iff]

end Expression

namespace RuleTree

open Expression

variable {Leaf State : Type}

/-- A domain with a negation has no rule tree. Any other domain has one exactly when it
has a formula under an action that never fails. The tree is then the image of the
formula over its conditions: a rule for a condition, and a query with the images of
the members, in order, for a conjunction or disjunction. The image of a conjunction
whose only member is a disjunction is that of this member. -/
theorem ofDomain_agrees_with_formulaWith
    {act : Condition → ExceptT Error (StateM State) Leaf}
    (neverFails : NeverFails act)
    (domain : Domain)
    (state : State) :
    (.marker Marker.not.text ∈ domain →
      ∃ error, ofDomain domain = .error error) ∧
    (.marker Marker.not.text ∉ domain →
      ((∃ tree, ofDomain domain = .ok tree) ↔
        ∃ formula after,
          outcome (domain.formulaWith act) state = (.ok formula, after)) ∧
      ∀ formula after,
        outcome (domain.formulaWith act) state = (.ok formula, after) →
        ∃ bound : Formula (Condition × Leaf),
          formula = bound.map Prod.snd ∧
          domain.parsed = .ok (bound.map Prod.fst) ∧
          (bound.map Prod.fst).Positive ∧
          ofDomain domain = .ok (bound.map Prod.fst).rootTree) := by
  constructor
  · intro negated
    cases accepted : ofDomain domain with
    | error error => exact ⟨error, rfl⟩
    | ok tree =>
        obtain ⟨expressions, rfl, negationFree, _⟩ := ofDomain_eq_ok accepted
        exact absurd negated ((not_mem_write_iff expressions).mpr negationFree)
  · intro unnegated
    have imaged : ∀ formula after,
        outcome (domain.formulaWith act) state = (.ok formula, after) →
        ∃ bound : Formula (Condition × Leaf),
          formula = bound.map Prod.snd ∧
          domain.parsed = .ok (bound.map Prod.fst) ∧
          (bound.map Prod.fst).Positive ∧
          ofDomain domain = .ok (bound.map Prod.fst).rootTree := by
      intro formula after read
      obtain ⟨bound, parsed_eq, formula_eq, _⟩ :=
        Domain.exists_bound_of_formulaWith read
      obtain ⟨operands, _, operandsRead⟩ := Domain.formulaWith_eq_ok_iff.mp read
      obtain ⟨expressions, rfl, _⟩ := exists_write_of_operandsWith operandsRead
      have negationFree := (not_mem_write_iff expressions).mp unnegated
      have image_eq : bound.map Prod.fst =
          .conjunction (expressions.map Expression.formula) :=
        Except.ok.inj (parsed_eq.symm.trans (parsed_write expressions))
      refine ⟨bound, formula_eq, parsed_eq, ?_, ?_⟩
      · rw [image_eq]
        refine Formula.Positive.combine ?_ .and
        simpa using fun expression inExpressions =>
          (negationFree expression inExpressions).positive_formula
      · rw [image_eq, ofDomain_write negationFree]
    refine ⟨⟨?_, ?_⟩, imaged⟩
    · rintro ⟨tree, accepted⟩
      obtain ⟨expressions, rfl, _⟩ := ofDomain_eq_ok accepted
      obtain ⟨results, after, bound⟩ := neverFails.bindAll expressions state
      refine ⟨.conjunction (results.map Expression.formula), after, ?_⟩
      rw [formulaWith_write, outcome_bind, bound]
      simp
    · rintro ⟨formula, after, read⟩
      obtain ⟨bound, _, _, _, accepted⟩ := imaged formula after read
      exact ⟨_, accepted⟩

/-- A disjunction that is the only member of the conjunction of a domain is the root of
the rule tree, whatever the formula was read for. -/
theorem ofDomain_agrees_on_disjunction :
    let count : Condition → ExceptT Error (StateM Nat) Nat := fun _ => do
      let bound ← get
      set (bound + 1)
      pure bound
    let test : String → Condition := fun field => ⟨field, "=", .literal .null⟩
    let rule : String → RuleTree := fun field =>
      .rule (Rule.ofCondition (test field))
    let domain : Domain :=
      [.marker "|", .condition (test "a"), .marker "&",
        .condition (test "b"), .condition (test "c")]
    NeverFails count ∧
    ((∃ tree, ofDomain domain = .ok tree) ↔
      ∃ formula after,
        outcome (domain.formulaWith count) 0 = (.ok formula, after)) ∧
    outcome (domain.formulaWith count) 0 =
      (.ok (.and [.or [.leaf 2, .and [.leaf 1, .leaf 0]]]), 3) ∧
    ofDomain domain =
      .ok (.query .or [rule "a", .query .and [rule "b", rule "c"]]) := by
  intro count test rule domain
  have neverFails : NeverFails count := fun _ state => ⟨state, state + 1, rfl⟩
  have unnegated : .marker Marker.not.text ∉ domain := by simp [domain, Marker.text]
  have agrees := (ofDomain_agrees_with_formulaWith neverFails domain 0).2 unnegated
  exact ⟨neverFails, agrees.1, rfl, rfl⟩

end RuleTree

end DomainSql
