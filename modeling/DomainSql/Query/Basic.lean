import DomainSql.Query.Order

/-!
# Queries

A query selects columns of a root table and filters its rows. Selecting starts a
new session; filters are resolved in the session of the last selection, so that a
relation of a column and of a condition is joined once.

A selection that fails has started a new session already, and keeps the columns,
the order, the grouping and the limits of the selection before it. The joins of a
filter stay in the session.
-/

namespace DomainSql

/-- An entry of a selection. -/
inductive SelectField
  | column (path : String)
  | call (function : FunctionCall)
  deriving DecidableEq

/-- What a selection asks for besides its entries. -/
structure SelectOptions where
  orderBy : List String
  groupBy : List String
  limit : Option Nat
  offset : Option Nat
  /-- Names in place of default names. -/
  names : List (String × String)

/-- A query with its last selection. -/
structure Query where
  table : String
  foreignKeys : ForeignKeys
  dialect : Dialect
  session : Session
  columns : List (Sql.Term × String)
  orderBy : List Sql.Ordering
  groupBy : List Sql.Term
  limit : Option Nat
  offset : Option Nat

/-- An operation on a query. An operation that fails leaves a query too. -/
abbrev Querying := ExceptT Error (StateM Query)

namespace SelectField

/-- The name of a column that is not named otherwise: its path, or the function
and its first field, with points replaced. -/
def defaultName : SelectField → String
  | .column path => Text.replace '.' '_' path
  | .call function =>
      match function.paths with
      | first :: _ => function.function.text ++ "_" ++ Text.replace '.' '_' first
      | [] => function.function.text

/-- The count of a path. -/
def count (path : String) : SelectField :=
  .call ⟨.count, [.field path]⟩

/-- The term of an entry in a session. -/
def bind : SelectField → Resolving Sql.Term
  | .column path => do
      let resolved ← Session.resolveField path
      pure (Sql.Term.ofColumn resolved.column)
  | .call function => do
      let bound ← function.bind
      pure (Sql.Term.ofCall bound)

end SelectField

namespace OrderItem

/-- The order of an item in a session. -/
def bind (item : String) : Resolving Sql.Ordering := do
  match OrderItem.read item with
  | .error error => throw (.expression error)
  | .ok order => do
      let resolved ← Session.resolveField order.path
      pure ⟨Sql.Term.ofColumn resolved.column, order.direction, order.nulls⟩

end OrderItem

namespace Query

/-- The query of a table before any selection. -/
def start
    (table : String)
    (foreignKeys : ForeignKeys)
    (dialect : Dialect) : Query where
  table := table
  foreignKeys := foreignKeys
  dialect := dialect
  session := Session.start table foreignKeys
  columns := []
  orderBy := []
  groupBy := []
  limit := none
  offset := none

/-- An operation on the session of a query. -/
def inSession {Result : Type} (act : Resolving Result) : Querying Result :=
  fun query =>
    let (result, session) := act.run.run query.session
    (result, { query with session := session })

/-- The column of the answer for an entry. -/
def bindColumn
    (names : List (String × String))
    (field : SelectField) : Resolving (Sql.Term × String) := do
  let term ← field.bind
  let name := (names.lookup field.defaultName).getD field.defaultName
  pure (term, name)

/-- The columns, orders and groups of a selection, resolved in this order. -/
def bindSelection
    (fields : List SelectField)
    (options : SelectOptions) :
    Resolving
      (List (Sql.Term × String) × List Sql.Ordering × List Sql.Term) := do
  let columns ← fields.mapM (bindColumn options.names)
  let orderBy ← options.orderBy.mapM OrderItem.bind
  let groupBy ← options.groupBy.mapM fun path => (SelectField.column path).bind
  pure (columns, orderBy, groupBy)

/-- Start a new session and select. Without entries all columns of the root table
are selected. -/
def select
    (fields : List SelectField)
    (options : SelectOptions) : Querying Unit := do
  modify fun query =>
    { query with session := Session.start query.table query.foreignKeys }
  let (columns, orderBy, groupBy) ← inSession (bindSelection fields options)
  modify fun query =>
    { query with
      columns := columns
      orderBy := orderBy
      groupBy := groupBy
      limit := options.limit
      offset := options.offset }

/-- The columns of the answer. -/
def outputColumns (query : Query) : List Sql.OutputColumn :=
  if query.columns.isEmpty then [.everythingOf query.session.root.aliasName]
  else query.columns.map fun column => .term column.1 column.2

/-- The statement of a query whose filter has this formula. -/
def statementOf
    (query : Query)
    (dialect : Dialect)
    (formula : Formula BoundCondition) : Sql.Statement where
  columns := query.outputColumns
  root := query.session.root
  joins := query.session.joins
  test := Sql.Test.ofFormula dialect formula
  groupBy := query.groupBy
  orderBy := query.orderBy
  limit := query.limit
  offset := query.offset

/-- The statement of a query with a filter, for a dialect. -/
def statement
    (domain : Domain)
    (dialect : Dialect) : Querying Sql.Statement := do
  let formula ← inSession domain.bind
  let query ← get
  match Sql.Statement.checkJoins dialect query.session.joins with
  | .error error => throw error
  | .ok () => pure (query.statementOf dialect formula)

/-- The statement of a query with a filter, for the dialect of the query. -/
def filter (domain : Domain) : Querying Sql.Statement := do
  let query ← get
  statement domain query.dialect

/-- The text of a query with a filter, for a dialect. -/
def toSql
    (domain : Domain)
    (dialect : Dialect) : Querying String := do
  let statement ← statement domain dialect
  pure (statement.text dialect)

end Query
end DomainSql
