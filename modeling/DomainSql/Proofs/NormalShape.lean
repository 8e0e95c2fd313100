import DomainSql.Proofs.BranchingFormulas
import DomainSql.Proofs.QueryHistory
import DomainSql.Proofs.RuleTreeReading
import DomainSql.Proofs.TruthValues

/-!
# The shape of what is written

The operands that a domain leaves are proper, so that its formula is a flat
conjunction of branching members. A group without members would be written as a truth
constant; as there is none below the root, the only constant that a statement can have
is the condition of the empty domain.
-/

namespace DomainSql

/-! ## The formula of a domain -/

namespace Formula

variable {Leaf : Type}

/-- The conjunction of proper formulas is flat, its members branch, and it has a member
when there is a formula. -/
theorem conjunction_shape
    {formulas : List (Formula Leaf)}
    (proper : ∀ formula ∈ formulas, formula.Proper) :
    ∃ members, conjunction formulas = .and members ∧
      (Formula.and members).isFlat = true ∧
      (∀ member ∈ members, member.Branching) ∧
      (members = [] ↔ formulas = []) := by
  refine ⟨formulas.flatMap (membersBy .and), rfl, (isFlat_compound_iff .and).mpr ?_, ?_, ?_⟩
  · intro member inMembers
    obtain ⟨notAnd, memberProper⟩ := Proper.of_mem_flatMap_membersBy proper inMembers
    exact ⟨notAnd, (proper_iff.mp memberProper).2⟩
  · intro member inMembers
    exact (proper_iff.mp (Proper.of_mem_flatMap_membersBy proper inMembers).2).1
  · have enough := length_le_length_flatMap fun formula inFormulas =>
      (proper formula inFormulas).membersBy_ne_nil .and
    constructor
    · intro none
      rw [none, List.length_nil, Nat.le_zero] at enough
      exact List.length_eq_zero_iff.mp enough
    · rintro rfl
      rfl

end Formula

namespace Domain

variable {Leaf State : Type} {act : Condition → ExceptT Error (StateM State) Leaf}

/-- The operands that a domain leaves are proper, and there is one unless the domain is
empty. -/
theorem proper_of_operandsWith
    {position : Nat}
    {domain : Domain}
    {operands : List (Formula Leaf)}
    {state after : State}
    (read : outcome (domain.operandsWith act position) state = (.ok operands, after)) :
    (∀ operand ∈ operands, operand.Proper) ∧ (operands = [] ↔ domain = []) := by
  obtain ⟨expressions, rfl, length_eq⟩ := Expression.exists_write_of_operandsWith read
  rw [Expression.operandsWith_write] at read
  obtain ⟨bound, _, _, done⟩ := outcome_bind_eq_ok_iff.mp read
  cases done
  constructor
  · simp [Expression.proper_formula]
  · rw [← List.length_eq_zero_iff, ← length_eq, List.length_eq_zero_iff]
    cases expressions with
    | nil => simp
    | cons expression rest => simp [Expression.items_ne_nil]

theorem shape_of_formulaWith
    {domain : Domain}
    {formula : Formula Leaf}
    {state after : State}
    (read : outcome (domain.formulaWith act) state = (.ok formula, after)) :
    ∃ members, formula = .and members ∧
      formula.isFlat = true ∧
      (∀ member ∈ members, member.Branching) ∧
      (members = [] ↔ domain = []) := by
  obtain ⟨operands, rfl, operandsRead⟩ := formulaWith_eq_ok_iff.mp read
  obtain ⟨proper, nonempty⟩ := proper_of_operandsWith operandsRead
  obtain ⟨members, members_eq, flat, branching, none⟩ :=
    Formula.conjunction_shape proper
  rw [members_eq]
  exact ⟨members, rfl, flat, branching, none.trans nonempty⟩

end Domain

/-! ## The constants of a test -/

namespace Sql.Test

/-- The truth constants from left to right. -/
def constants : Test → List Bool
  | .truth value => [value]
  | .predicate _ => []
  | .combine _ left right => left.constants ++ right.constants
  | .not inner => inner.constants

theorem constants_foldl
    (junction : Junction)
    (tests : List Test)
    (first : Test) :
    (tests.foldl (.combine junction) first).constants =
      first.constants ++ tests.flatMap constants := by
  induction tests generalizing first with
  | nil => simp
  | cons test rest inductionHypothesis => simp [inductionHypothesis, constants]

/-- A group has the constants of its parts, and one of its own when it has no part. -/
theorem constants_combineAll
    (junction : Junction)
    (tests : List Test) :
    (combineAll junction tests).constants =
      if tests.isEmpty then [junction == .all] else tests.flatMap constants := by
  cases tests with
  | nil => rfl
  | cons first rest => exact constants_foldl junction rest first

@[simp] theorem constants_ofClause_negate (clause : Clause) :
    (ofClause clause.negate).constants = (ofClause clause).constants := by
  cases clause with
  | predicate inner => rfl
  | group junction negated parts =>
      cases negated <;> simp [Clause.negate, ofClause, constants]

theorem ofParts_partsOf
    (dialect : Dialect)
    (members : List (Formula BoundCondition)) :
    ofParts (Clause.partsOf dialect members) = members.map (ofFormula dialect) := by
  induction members with
  | nil => rfl
  | cons member rest inductionHypothesis =>
      rw [Clause.partsOf, ofParts, ofClause_asPart, inductionHypothesis]
      rfl

/-- The members of a group, each without a constant, are written without one if there is
a member. -/
theorem constants_group
    (dialect : Dialect)
    (junction : Junction)
    {members : List (Formula BoundCondition)}
    (each : ∀ member ∈ members, (ofFormula dialect member).constants = []) :
    (combineAll junction (ofParts (Clause.partsOf dialect members))).constants =
      if members.isEmpty then [junction == .all] else [] := by
  rw [ofParts_partsOf, constants_combineAll, List.isEmpty_map, List.flatMap_map,
    List.flatMap_eq_nil_iff.mpr each]

/-- A branching formula is written without truth constants. -/
theorem constants_of_branching
    (dialect : Dialect)
    {formula : Formula BoundCondition}
    (branching : formula.Branching) :
    (ofFormula dialect formula).constants = [] := by
  induction branching with
  | leaf condition => rfl
  | @and members two_le _ inductionHypothesis =>
      refine (constants_group dialect .all inductionHypothesis).trans ?_
      cases members with
      | nil => cases two_le
      | cons _ _ => rfl
  | @or members two_le _ inductionHypothesis =>
      refine (constants_group dialect .any inductionHypothesis).trans ?_
      cases members with
      | nil => cases two_le
      | cons _ _ => rfl
  | not _ inductionHypothesis =>
      exact (constants_ofClause_negate _).trans inductionHypothesis

end Sql.Test

namespace Domain

open Sql

/-- The condition of a statement is the constant "true" for the empty domain, and has
no constant for any other. -/
theorem constants_of_bind
    {domain : Domain}
    {session after : Session}
    {formula : Formula BoundCondition}
    (bound : outcome domain.bind session = (.ok formula, after))
    (dialect : Dialect) :
    (Test.ofFormula dialect formula).constants =
      if domain.isEmpty then [true] else [] := by
  obtain ⟨members, rfl, _, branching, none⟩ := shape_of_formulaWith bound
  have each : ∀ member ∈ members, (Test.ofFormula dialect member).constants = [] :=
    fun member inMembers => Test.constants_of_branching dialect (branching member inMembers)
  have empty : members.isEmpty = domain.isEmpty := by
    rw [Bool.eq_iff_iff, List.isEmpty_iff, List.isEmpty_iff, none]
  rw [← empty]
  exact Test.constants_group dialect .all each

/-- When a domain is read, whatever is made of its conditions, its formula is a flat
conjunction in which every disjunction and every other conjunction has two members at
least, and which has no member only for the empty domain. Therefore no statement of a
filter or a query has an empty group below its condition: the only truth constant that is
written is the whole condition of the empty domain. -/
theorem formulas_have_normal_shape (domain : Domain) :
    (∀ {Leaf State : Type}
      (act : Condition → ExceptT Error (StateM State) Leaf)
      (formula : Formula Leaf)
      (state after : State),
      outcome (domain.formulaWith act) state = (.ok formula, after) →
      ∃ members, formula = .and members ∧
        formula.isFlat = true ∧
        (∀ member ∈ members, member.Branching) ∧
        (members = [] ↔ domain = [])) ∧
    (∀ table foreignKeys dialect statement,
      (Filter.ofDomain table foreignKeys domain >>= Filter.statement dialect) =
        .ok statement →
      statement.test.constants = if domain.isEmpty then [true] else []) ∧
    ∀ dialect query statement after,
      outcome (Query.statement domain dialect) query = (.ok statement, after) →
      statement.test.constants = if domain.isEmpty then [true] else [] := by
  refine ⟨fun _ _ _ _ read => shape_of_formulaWith read, ?_, ?_⟩
  · intro table foreignKeys dialect statement written
    obtain ⟨filter, accepted, written⟩ := bind_eq_ok_iff.mp written
    obtain ⟨session, bound, _, _⟩ := Filter.exists_bind_of_ofDomain accepted
    obtain ⟨_, _, done⟩ := bind_eq_ok_iff.mp written
    cases done
    exact constants_of_bind bound dialect
  · intro dialect query statement after written
    rw [Query.outcome_statement] at written
    rcases bound : outcome domain.bind query.session with ⟨error | formula, session⟩
    · simp [bound] at written
    · simp only [bound, Prod.mk.injEq] at written
      obtain ⟨_, _, done⟩ := bind_eq_ok_iff.mp written.1
      cases done
      exact constants_of_bind bound dialect

/-- A conjunction below a disjunction that stands beside a negation is written without
truth constants. -/
theorem disjunction_has_normal_shape :
    let domain : Domain :=
      [.marker "|", .marker "&",
        .condition ⟨"age", "<", .literal (.int 18)⟩,
        .condition ⟨"state", "=", .literal (.text "new")⟩,
        .marker "!", .condition ⟨"name", "=", .literal .null⟩]
    ∃ statement,
      (Filter.ofDomain "users" (fun _ _ => none) domain >>= Filter.statement .sqlite) =
        .ok statement ∧
      statement.test.constants = [] := by
  intro domain
  have written : (Filter.ofDomain "users" (fun _ _ => none) domain
      >>= Filter.statement .sqlite).toOption.isSome = true := by
    decide +kernel
  obtain ⟨statement, found⟩ := Option.isSome_iff_exists.mp written
  have accepted := eq_ok_of_toOption_eq_some found
  exact ⟨statement, accepted,
    (formulas_have_normal_shape domain).2.1 _ _ _ _ accepted⟩

end Domain
end DomainSql
