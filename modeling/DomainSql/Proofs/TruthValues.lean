import DomainSql.Formula.Basic
import DomainSql.Sql.Clause
import Mathlib.Data.List.Forall2

/-!
# Truth values of SQL

A condition of SQL holds, fails, or is unknown. Formulas and tests get their values
from the values of their leaves, which are given by position, counted from left to
right: equal leaves at different places may have different values.

The test of a formula expresses it: it has the predicates of the leaves, in their
order, and under all truth values the value of the formula. This survives the way
from the formula to the test, where groups of one part give way to their part,
negation changes sides, and groups are folded from the left.
-/

namespace DomainSql

/-- A truth value of SQL. -/
inductive TruthValue
  | holds
  | fails
  | unknown
  deriving DecidableEq

namespace TruthValue

/-- The value of a negation. -/
def not : TruthValue → TruthValue
  | .holds => .fails
  | .fails => .holds
  | .unknown => .unknown

/-- The value of "and". -/
def and : TruthValue → TruthValue → TruthValue
  | .fails, _ => .fails
  | _, .fails => .fails
  | .holds, .holds => .holds
  | _, _ => .unknown

/-- The value of "or". -/
def or : TruthValue → TruthValue → TruthValue
  | .holds, _ => .holds
  | _, .holds => .holds
  | .fails, .fails => .fails
  | _, _ => .unknown

@[simp] theorem not_not (value : TruthValue) : value.not.not = value := by
  cases value <;> rfl

end TruthValue

namespace Sql
namespace Junction

/-- The value of two parts together. -/
def apply : Junction → TruthValue → TruthValue → TruthValue
  | .all => .and
  | .any => .or

/-- The value of no parts. -/
def empty : Junction → TruthValue
  | .all => .holds
  | .any => .fails

@[simp] theorem apply_empty
    (junction : Junction)
    (value : TruthValue) :
    junction.apply value junction.empty = value := by
  cases junction <;> cases value <;> rfl

theorem apply_assoc
    (junction : Junction)
    (first second third : TruthValue) :
    junction.apply (junction.apply first second) third =
      junction.apply first (junction.apply second third) := by
  cases junction <;> cases first <;> cases second <;> cases third <;> rfl

/-- The formula whose members are combined in this way. -/
def formula
    {Leaf : Type} : Junction → List (Formula Leaf) → Formula Leaf
  | .all => .and
  | .any => .or

end Junction
end Sql

namespace Formula

variable {Leaf : Type}

mutual

/-- The truth value of a formula under truth values of positions. Its leaves have
the positions from `start` on. -/
def valueFrom
    (truth : Nat → TruthValue)
    (start : Nat) : Formula Leaf → TruthValue
  | .leaf _ => truth start
  | .and members => membersFrom .all truth start members
  | .or members => membersFrom .any truth start members
  | .not inner => (inner.valueFrom truth start).not

/-- The truth value of formulas together, with the positions from `start` on for
their leaves. -/
def membersFrom
    (junction : Sql.Junction)
    (truth : Nat → TruthValue) : Nat → List (Formula Leaf) → TruthValue
  | _, [] => junction.empty
  | start, member :: rest =>
      junction.apply (member.valueFrom truth start)
        (membersFrom junction truth (start + member.leaves.length) rest)

end

theorem leaves_formula
    (junction : Sql.Junction)
    (members : List (Formula Leaf)) :
    (junction.formula members).leaves = leavesOf members := by
  cases junction <;> simp [Sql.Junction.formula, leaves]

theorem valueFrom_formula
    (truth : Nat → TruthValue)
    (start : Nat)
    (junction : Sql.Junction)
    (members : List (Formula Leaf)) :
    (junction.formula members).valueFrom truth start =
      membersFrom junction truth start members := by
  cases junction <;> simp [Sql.Junction.formula, valueFrom]

end Formula

namespace Sql
namespace Test

/-- The predicates from left to right. -/
def predicates : Test → List Predicate
  | .truth _ => []
  | .predicate inner => [inner]
  | .combine _ left right => left.predicates ++ right.predicates
  | .not inner => inner.predicates

/-- The truth value of a test under truth values of positions. Its predicates have
the positions from `start` on. -/
def valueFrom
    (truth : Nat → TruthValue)
    (start : Nat) : Test → TruthValue
  | .truth true => .holds
  | .truth false => .fails
  | .predicate _ => truth start
  | .combine junction left right =>
      junction.apply (left.valueFrom truth start)
        (right.valueFrom truth (start + left.predicates.length))
  | .not inner => (inner.valueFrom truth start).not

/-- The predicates of a test are those of the leaves of a formula, in their order,
and both have the same truth value under all truth values of positions. -/
structure Expresses
    (dialect : Dialect)
    (test : Test)
    (formula : Formula BoundCondition) : Prop where
  predicates_eq :
    test.predicates = formula.leaves.map (Predicate.ofCondition dialect)
  valueFrom_eq (truth : Nat → TruthValue) (start : Nat) :
    test.valueFrom truth start = formula.valueFrom truth start

variable {dialect : Dialect}

/-- What is folded onto a test stands behind it. -/
theorem expresses_foldl
    (junction : Junction)
    {tests : List Test}
    {members : List (Formula BoundCondition)}
    (express : List.Forall₂ (Expresses dialect) tests members)
    (first : Test) :
    (tests.foldl (.combine junction) first).predicates =
        first.predicates
          ++ (Formula.leavesOf members).map (Predicate.ofCondition dialect) ∧
      ∀ truth start,
        (tests.foldl (.combine junction) first).valueFrom truth start =
          junction.apply (first.valueFrom truth start)
            (Formula.membersFrom junction truth
              (start + first.predicates.length) members) := by
  induction express generalizing first with
  | nil => simp [Formula.leavesOf, Formula.membersFrom]
  | @cons test member tests members expresses _ inductionHypothesis =>
      obtain ⟨predicatesEqual, valueEqual⟩ :=
        inductionHypothesis (.combine junction first test)
      refine ⟨?_, fun truth start => ?_⟩
      · rw [List.foldl_cons, predicatesEqual]
        simp [predicates, Formula.leavesOf, expresses.predicates_eq]
      · rw [List.foldl_cons, valueEqual]
        simp [valueFrom, Formula.membersFrom, predicates, Junction.apply_assoc,
          expresses.valueFrom_eq, expresses.predicates_eq, Nat.add_assoc]

/-- Tests that express the members of a group express the group together. -/
theorem expresses_combineAll
    (junction : Junction)
    {tests : List Test}
    {members : List (Formula BoundCondition)}
    (express : List.Forall₂ (Expresses dialect) tests members) :
    (combineAll junction tests).Expresses dialect (junction.formula members) := by
  cases express with
  | nil => cases junction <;> exact ⟨rfl, fun _ _ => rfl⟩
  | @cons test member tests members expresses rest =>
      obtain ⟨predicatesEqual, valueEqual⟩ := expresses_foldl junction rest test
      refine ⟨?_, fun truth start => ?_⟩
      · rw [combineAll, predicatesEqual]
        simp [Formula.leaves_formula, Formula.leavesOf, expresses.predicates_eq]
      · rw [combineAll, valueEqual]
        simp [Formula.valueFrom_formula, Formula.membersFrom,
          expresses.valueFrom_eq, expresses.predicates_eq]

/-- A clause has the same test when it becomes a part. -/
@[simp] theorem ofClause_asPart (clause : Clause) :
    ofClause clause.asPart = ofClause clause := by
  fun_cases Clause.asPart clause with
  | case1 junction part => simp [ofClause, ofParts, combineAll]
  | case2 => rfl

@[simp] theorem predicates_ofClause_negate (clause : Clause) :
    (ofClause clause.negate).predicates = (ofClause clause).predicates := by
  cases clause with
  | predicate inner => rfl
  | group junction negated parts =>
      cases negated <;> simp [Clause.negate, ofClause, predicates]

/-- The test of the opposite may negate a negation, which has the same value. -/
@[simp] theorem valueFrom_ofClause_negate
    (truth : Nat → TruthValue)
    (start : Nat)
    (clause : Clause) :
    (ofClause clause.negate).valueFrom truth start =
      ((ofClause clause).valueFrom truth start).not := by
  cases clause with
  | predicate inner => rfl
  | group junction negated parts =>
      cases negated <;> simp [Clause.negate, ofClause, valueFrom]

/-- The opposite of a clause expresses the negation. -/
theorem expresses_negate
    {clause : Clause}
    {formula : Formula BoundCondition}
    (expresses : (ofClause clause).Expresses dialect formula) :
    (ofClause clause.negate).Expresses dialect (.not formula) where
  predicates_eq := by
    rw [predicates_ofClause_negate, Formula.leaves, expresses.predicates_eq]
  valueFrom_eq truth start := by
    rw [valueFrom_ofClause_negate, Formula.valueFrom, expresses.valueFrom_eq]

mutual

/-- The test of a formula expresses it. -/
theorem expresses_ofFormula
    (dialect : Dialect) :
    ∀ formula : Formula BoundCondition,
      (ofFormula dialect formula).Expresses dialect formula
  | .leaf _ => ⟨rfl, fun _ _ => rfl⟩
  | .and members => expresses_combineAll .all (expresses_ofParts dialect members)
  | .or members => expresses_combineAll .any (expresses_ofParts dialect members)
  | .not inner => expresses_negate (expresses_ofFormula dialect inner)

/-- The tests of the parts of a group express its members. -/
theorem expresses_ofParts
    (dialect : Dialect) :
    ∀ members : List (Formula BoundCondition),
      List.Forall₂ (Expresses dialect)
        (ofParts (Clause.partsOf dialect members)) members
  | [] => .nil
  | member :: rest => by
      refine .cons ?_ (expresses_ofParts dialect rest)
      rw [ofClause_asPart]
      exact expresses_ofFormula dialect member

end

end Test
end Sql
end DomainSql
