import DomainSql.Sql.Clause

/-!
# Statements

A statement selects columns from the root table and its joins, where a test holds.
MySQL has no words for the place of nulls in an order, and sorts by the test for
null first.
-/

namespace DomainSql
namespace Sql

/-- A column of the answer. -/
inductive OutputColumn
  | everything
  | everythingOf (table : String)
  | term (value : Term) (name : String)

/-- The direction of an order. -/
inductive Direction
  | ascending
  | descending
  deriving DecidableEq

/-- Where an order puts nulls. -/
inductive NullPlace
  | first
  | last
  deriving DecidableEq

/-- A term to sort by. -/
structure Ordering where
  term : Term
  direction : Direction
  nulls : Option NullPlace

/-- A select statement. -/
structure Statement where
  columns : List OutputColumn
  root : Table
  joins : List Join
  test : Test
  groupBy : List Term
  orderBy : List Ordering
  limit : Option Nat
  offset : Option Nat

namespace OutputColumn

/-- The tokens of a column of the answer. -/
def tokens (dialect : Dialect) : OutputColumn → List Token
  | .everything => [.symbol "*"]
  | .everythingOf table => [.name table, .symbol ".", .symbol "*"]
  | .term value name =>
      value.tokens dialect ++ [.space, .word "AS", .space, .name name]

end OutputColumn

namespace Ordering

/-- The word of a direction. -/
def directionWord : Direction → String
  | .ascending => "ASC"
  | .descending => "DESC"

/-- The tokens of an order. -/
def tokens
    (dialect : Dialect)
    (ordering : Ordering) : List Token :=
  let term := ordering.term.tokens dialect
  let sorted := term ++ [.space, .word (directionWord ordering.direction)]
  match ordering.nulls with
  | none => sorted
  | some place =>
      if dialect = .mysql then
        term ++ .space :: Token.phrase ["IS", "NULL",
            match place with
            | .first => "DESC"
            | .last => "ASC"]
          ++ .symbol "," :: .space :: sorted
      else
        sorted ++ .space :: Token.phrase ["NULLS",
          match place with
          | .first => "FIRST"
          | .last => "LAST"]

end Ordering

namespace Statement

/-- The words of a join. -/
def joinWords : JoinForm → List String
  | .inner => ["INNER", "JOIN"]
  | .left => ["LEFT", "JOIN"]
  | .right => ["RIGHT", "JOIN"]
  | .fullOuter => ["FULL", "OUTER", "JOIN"]
  | .cross => ["CROSS", "JOIN"]

/-- A table with its alias. -/
def tableTokens (table : Table) : List Token :=
  [.name table.name, .space, .word "AS", .space, .name table.aliasName]

/-- The tokens of a join, with the space in front of it. -/
def joinTokens (join : Join) : List Token :=
  .space :: Token.phrase (joinWords join.kind.form) ++ .space
    :: tableTokens join.right
    ++ [.space, .word "ON", .space,
      .name join.left.aliasName, .symbol ".", .name join.leftColumn,
      .space, .symbol "=", .space,
      .name join.right.aliasName, .symbol ".", .name join.rightColumn]

/-- The tokens of a list behind its words, with the space in front of them, or
none if the list is empty. -/
def listTokens
    (words : List String)
    (entries : List (List Token)) : List Token :=
  if entries.isEmpty then []
  else .space :: Token.phrase words ++ .space :: Token.listed entries

/-- The tokens of a number behind its word, with the space in front of them. -/
def countTokens
    (word : String) : Option Nat → List Token
  | none => []
  | some count =>
      [.space, .word word, .space, .number (Nat.repr count)]

/-- The tokens of a statement. -/
def tokens
    (dialect : Dialect)
    (statement : Statement) : List Token :=
  .word "SELECT" :: .space
    :: Token.listed (statement.columns.map (OutputColumn.tokens dialect))
    ++ .space :: .word "FROM" :: .space :: tableTokens statement.root
    ++ statement.joins.flatMap joinTokens
    ++ .space :: .word "WHERE" :: .space :: statement.test.tokens dialect
    ++ listTokens ["GROUP", "BY"] (statement.groupBy.map (Term.tokens dialect))
    ++ listTokens ["ORDER", "BY"]
      (statement.orderBy.map (Ordering.tokens dialect))
    ++ countTokens "LIMIT" statement.limit
    ++ countTokens "OFFSET" statement.offset

/-- The text of a statement. -/
def text
    (dialect : Dialect)
    (statement : Statement) : String :=
  Token.textOf dialect (statement.tokens dialect)

/-- Check that a dialect has every join of a statement. -/
def checkJoins
    (dialect : Dialect)
    (joins : List Join) : Except Error Unit :=
  match joins.find? fun join => !dialect.supports join.kind with
  | some join => .error (.unsupportedJoin join.kind dialect)
  | none => .ok ()

end Statement
end Sql

namespace Filter

/-- The statement that selects all columns where a filter holds. -/
def statement
    (dialect : Dialect)
    (filter : Filter) : Except Error Sql.Statement := do
  Sql.Statement.checkJoins dialect filter.joins
  pure {
    columns := [.everything]
    root := filter.root
    joins := filter.joins
    test := Sql.Test.ofFormula dialect filter.formula
    groupBy := []
    orderBy := []
    limit := none
    offset := none
  }

/-- The text of the statement of a filter. -/
def toSql
    (dialect : Dialect)
    (filter : Filter) : Except Error String := do
  let statement ← filter.statement dialect
  pure (statement.text dialect)

end Filter
end DomainSql
