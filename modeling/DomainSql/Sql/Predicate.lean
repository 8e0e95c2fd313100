import DomainSql.Sql.Term

/-!
# Predicates

A predicate is what one bound condition becomes. Comparison with null becomes a
test for null, and membership in a value that is no list becomes membership in the
list of that value. Only Postgres compares without regard to case; the other
dialects compare the values in lower case.
-/

namespace DomainSql
namespace Sql

/-- The operators between two terms. -/
inductive Operator
  | equal
  | notEqual
  | less
  | lessOrEqual
  | greater
  | greaterOrEqual
  | like
  | notLike
  | ilike
  | notIlike
  deriving DecidableEq

/-- A test on terms. -/
inductive Predicate
  | compare (left : Term) (operator : Operator) (right : Term)
  | member (left : Term) (negated : Bool) (items : List Term)
  | isNull (left : Term) (negated : Bool)

namespace Operator

/-- The tokens of an operator. -/
def tokens : Operator → List Token
  | .equal => [.symbol "="]
  | .notEqual => [.symbol "<>"]
  | .less => [.symbol "<"]
  | .lessOrEqual => [.symbol "<="]
  | .greater => [.symbol ">"]
  | .greaterOrEqual => [.symbol ">="]
  | .like => [.word "LIKE"]
  | .notLike => Token.phrase ["NOT", "LIKE"]
  | .ilike => [.word "ILIKE"]
  | .notIlike => Token.phrase ["NOT", "ILIKE"]

end Operator

namespace Predicate

/-- Whether a predicate stands inside "and", "or" and "not" without parentheses.
Only the comparisons that Postgres makes without regard to case do not. -/
def isBare : Predicate → Bool
  | .compare _ .ilike _ => false
  | .compare _ .notIlike _ => false
  | _ => true

/-- The tokens of a predicate. Membership in the empty list is written as a
comparison of two numbers. -/
def tokens (dialect : Dialect) : Predicate → List Token
  | .compare left operator right =>
      left.tokens dialect ++ .space :: operator.tokens
        ++ .space :: right.tokens dialect
  | .member _ negated [] =>
      [.number "1", .space, .symbol "=", .space,
        .number (if negated then "1" else "2")]
  | .member left negated items =>
      left.tokens dialect ++ .space
        :: Token.phrase (if negated then ["NOT", "IN"] else ["IN"])
        ++ .space :: Token.parenthesized
          (Token.listed (Term.tokensOf dialect items))
  | .isNull left negated =>
      left.tokens dialect ++ .space
        :: Token.phrase (if negated then ["IS", "NOT", "NULL"] else ["IS", "NULL"])

/-- Comparison of two terms without regard to case. -/
def compareCaseless
    (dialect : Dialect)
    (left : Term)
    (negated : Bool)
    (right : Term) : Predicate :=
  if dialect = .postgres then
    .compare left (if negated then .notIlike else .ilike) right
  else
    .compare (.call .lower [left]) (if negated then .notLike else .like)
      (.call .lower [right])

/-- The terms of the list that an operand stands for in a membership test. -/
def itemsOf : BoundOperand → List Term
  | .literal (.list items) => items.map .literal
  | operand => [Term.ofOperand operand]

/-- The predicate of a bound condition. -/
def ofCondition
    (dialect : Dialect)
    (condition : BoundCondition) : Predicate :=
  let left := Term.ofColumn condition.column
  let right := Term.ofOperand condition.operand
  match condition.comparison, condition.operand with
  | .equal, .literal .null => .isNull left false
  | .notEqual, .literal .null => .isNull left true
  | .within, operand => .member left false (itemsOf operand)
  | .notWithin, operand => .member left true (itemsOf operand)
  | .ilike, _ => compareCaseless dialect left false right
  | .notIlike, _ => compareCaseless dialect left true right
  | .equal, _ => .compare left .equal right
  | .notEqual, _ => .compare left .notEqual right
  | .less, _ => .compare left .less right
  | .lessOrEqual, _ => .compare left .lessOrEqual right
  | .greater, _ => .compare left .greater right
  | .greaterOrEqual, _ => .compare left .greaterOrEqual right
  | .like, _ => .compare left .like right
  | .notLike, _ => .compare left .notLike right

end Predicate
end Sql
end DomainSql
