import DomainSql.Filter.Basic
import DomainSql.Sql.Predicate

/-!
# Clauses

The formula of a filter becomes a clause: groups of any number of parts, each
possibly negated. A group that is not negated and has a single part is replaced by
that part when it becomes a part itself. A clause is written as a test, in which
"and" and "or" have two sides and are nested to the left. Parentheses stand where
the reading order of SQL needs them, and around every right side and every negated
side that is no predicate.
-/

namespace DomainSql
namespace Sql

/-- What combines the parts of a group. -/
inductive Junction
  | all
  | any
  deriving DecidableEq

/-- The condition of a statement, with groups of any number of parts. -/
inductive Clause
  | predicate (inner : Predicate)
  | group (junction : Junction) (negated : Bool) (parts : List Clause)

/-- The condition of a statement, with two sides to "and" and "or". -/
inductive Test
  | truth (value : Bool)
  | predicate (inner : Predicate)
  | combine (junction : Junction) (left right : Test)
  | not (inner : Test)

namespace Clause

/-- A clause as a part of a group. -/
def asPart : Clause → Clause
  | .group _ false [part] => part
  | other => other

/-- The opposite of a clause. -/
def negate : Clause → Clause
  | .predicate inner => .group .all true [.predicate inner]
  | .group junction negated parts => .group junction (!negated) parts

mutual

/-- The clause of a formula. -/
def ofFormula
    (dialect : Dialect) : Formula BoundCondition → Clause
  | .leaf condition =>
      .group .all false [.predicate (Predicate.ofCondition dialect condition)]
  | .and members => .group .all false (partsOf dialect members)
  | .or members => .group .any false (partsOf dialect members)
  | .not inner => (ofFormula dialect inner).negate

/-- The parts of a group of formulas. -/
def partsOf
    (dialect : Dialect) : List (Formula BoundCondition) → List Clause
  | [] => []
  | member :: rest => (ofFormula dialect member).asPart :: partsOf dialect rest

end

end Clause

namespace Test

/-- Combine tests from the left. No test at all is true for "all" and false for
"any". -/
def combineAll
    (junction : Junction) : List Test → Test
  | [] => .truth (junction == .all)
  | first :: rest => rest.foldl (.combine junction) first

mutual

/-- The test of a clause. -/
def ofClause : Clause → Test
  | .predicate inner => .predicate inner
  | .group junction negated parts =>
      let combined := combineAll junction (ofParts parts)
      if negated then .not combined else combined

/-- The tests of the parts of a group. -/
def ofParts : List Clause → List Test
  | [] => []
  | part :: rest => ofClause part :: ofParts rest

end

/-- Whether a test stands inside other tests without parentheses. -/
def isBare : Test → Bool
  | .truth _ => true
  | .predicate inner => inner.isBare
  | .combine _ _ _ => false
  | .not _ => false

/-- Whether a test is combined by this junction. -/
def combinesBy
    (junction : Junction) : Test → Bool
  | .combine other _ _ => other == junction
  | _ => false

/-- The word between the sides of a junction. -/
def junctionWord : Junction → String
  | .all => "AND"
  | .any => "OR"

/-- Tokens, between parentheses unless they are bare. -/
def enclosed
    (bare : Bool)
    (tokens : List Token) : List Token :=
  if bare then tokens else Token.parenthesized tokens

/-- The tokens of a test. -/
def tokens (dialect : Dialect) : Test → List Token
  | .truth true => [.word "TRUE"]
  | .truth false => [.word "FALSE"]
  | .predicate inner => inner.tokens dialect
  | .combine junction left right =>
      enclosed (left.isBare || left.combinesBy junction) (left.tokens dialect)
        ++ .space :: .word (junctionWord junction) :: .space
        :: enclosed right.isBare (right.tokens dialect)
  | .not inner =>
      .word "NOT" :: .space :: enclosed inner.isBare (inner.tokens dialect)

/-- The test of a formula. -/
def ofFormula
    (dialect : Dialect)
    (formula : Formula BoundCondition) : Test :=
  ofClause (Clause.ofFormula dialect formula)

end Test
end Sql
end DomainSql
