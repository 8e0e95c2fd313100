import DomainSql.Join.Kind

/-!
# Tables, columns and joins

A query may use a table several times; each use is an instance with an alias of
its own. The root table of a query has the alias `t0`, and the table of its `n`-th
join the alias `t` with the number `n`.
-/

namespace DomainSql

/-- One use of a table in a query. -/
structure Table where
  name : String
  aliasName : String
  deriving DecidableEq

/-- A column of an instance of a table. -/
structure Column where
  table : Table
  name : String
  deriving DecidableEq

namespace Column

/-- A column as it is shown: the alias of its table and its name. -/
def text (column : Column) : String :=
  column.table.aliasName ++ "." ++ column.name

end Column

/-- What a field refers to: a column of another table, and the column of its own
table that holds the reference. -/
structure ForeignKey where
  targetTable : String
  column : String
  targetColumn : String
  deriving DecidableEq

/-- What is known about references: the one of a table's field, if it has one. -/
abbrev ForeignKeys := String → String → Option ForeignKey

/-- What joins a table to the table that a path has reached. -/
structure Relation where
  table : String
  kind : JoinKind
  leftColumn : String
  rightColumn : String
  deriving DecidableEq

namespace Relation

/-- The relation along a foreign key. -/
def ofForeignKey
    (kind : JoinKind)
    (foreignKey : ForeignKey) : Relation where
  table := foreignKey.targetTable
  kind := kind
  leftColumn := foreignKey.column
  rightColumn := foreignKey.targetColumn

end Relation

/-- A join of a query, with the key of the path that first needed it. -/
structure Join where
  key : String
  left : Table
  right : Table
  kind : JoinKind
  leftColumn : String
  rightColumn : String
  deriving DecidableEq

namespace Join

/-- What joins the right table of a join to its left table. -/
def relation (join : Join) : Relation where
  table := join.right.name
  kind := join.kind
  leftColumn := join.leftColumn
  rightColumn := join.rightColumn

end Join

/-- The alias of a table by its place among the joins of a query; the root table
has place zero. -/
def tableAlias (place : Nat) : String :=
  "t" ++ Nat.repr place

end DomainSql
