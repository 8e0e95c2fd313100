import DomainSql.Decimal.Layout
import DomainSql.Filter.Bound
import DomainSql.Sql.Token

/-!
# Terms

A term is what stands on either side of a comparison, in a column list, or in an
order: a column, a literal, or a call.
-/

namespace DomainSql
namespace Sql

/-- Numbers take the nearest shortest decimal, a half goes away from zero, the
point is always in position, and a whole number shows none. -/
def numberLayout : Decimal.Layout := ⟨.away, none, false⟩

/-- What a call applies: a function of a query, or the change to lower case. -/
inductive Callee
  | function (name : FunctionName)
  | lower
  deriving DecidableEq

/-- A value in a statement. -/
inductive Term
  | column (table name : String)
  | everything
  | literal (value : Literal)
  | call (callee : Callee) (arguments : List Term)

namespace Callee

/-- The name of a function in SQL. SQLite compares values by its aggregates. -/
def word (dialect : Dialect) : Callee → String
  | .lower => "LOWER"
  | .function .coalesce => "COALESCE"
  | .function .greatest => if dialect = .sqlite then "MAX" else "GREATEST"
  | .function .least => if dialect = .sqlite then "MIN" else "LEAST"
  | .function .concat => "CONCAT"
  | .function .max => "MAX"
  | .function .min => "MIN"
  | .function .sum => "SUM"
  | .function .avg => "AVG"
  | .function .count => "COUNT"

end Callee

mutual

/-- The tokens of a literal. A list stands between parentheses. -/
def literalTokens : Literal → List Token
  | .null => [.word "NULL"]
  | .bool true => [.word "TRUE"]
  | .bool false => [.word "FALSE"]
  | .int value => [.number (String.ofList (Json.intChars value.toInt))]
  | .float value => [.number (numberLayout.write value)]
  | .text value => [.text value]
  | .list items => Token.parenthesized (Token.listed (literalTokensOf items))

/-- The tokens of each of the literals. -/
def literalTokensOf : List Literal → List (List Token)
  | [] => []
  | item :: rest => literalTokens item :: literalTokensOf rest

end

namespace Term

mutual

/-- The tokens of a term. -/
def tokens (dialect : Dialect) : Term → List Token
  | .column table name => [.name table, .symbol ".", .name name]
  | .everything => [.symbol "*"]
  | .literal value => literalTokens value
  | .call callee arguments =>
      .word (callee.word dialect)
        :: Token.parenthesized (Token.listed (tokensOf dialect arguments))

/-- The tokens of each of the terms. -/
def tokensOf (dialect : Dialect) : List Term → List (List Token)
  | [] => []
  | term :: rest => term.tokens dialect :: tokensOf dialect rest

end

/-- The term of a column. -/
def ofColumn (column : Column) : Term :=
  .column column.table.aliasName column.name

/-- The term of an argument. -/
def ofArgument : BoundArgument → Term
  | .column bound => ofColumn bound
  | .literal value => .literal value

/-- The term of a call. An aggregate has one argument, which stands for all rows
if it is missing. -/
def ofCall (call : BoundCall) : Term :=
  let arguments := call.arguments.map ofArgument
  .call (.function call.function)
    (if call.function.isAggregate then
      match arguments with
      | [] => [.everything]
      | first :: _ => [first]
    else arguments)

/-- The term of an operand. -/
def ofOperand : BoundOperand → Term
  | .literal value => .literal value
  | .column bound => ofColumn bound
  | .call function => ofCall function

end Term
end Sql
end DomainSql
