import DomainSql.Join.Kind

/-!
# SQL dialects
-/

namespace DomainSql

/-- A dialect of SQL. -/
inductive Dialect
  | postgres
  | mysql
  | sqlite
  deriving DecidableEq

namespace Dialect

/-- The name of a dialect in settings and messages. -/
def text : Dialect → String
  | .postgres => "postgres"
  | .mysql => "mysql"
  | .sqlite => "sqlite"

/-- The name of a dialect as the console shows it. -/
def label : Dialect → String
  | .postgres => "Postgres"
  | .mysql => "Mysql"
  | .sqlite => "Sqlite"

/-- The dialect with this name. -/
def ofText? (text : String) : Option Dialect :=
  if text = "postgres" then some .postgres
  else if text = "mysql" then some .mysql
  else if text = "sqlite" then some .sqlite
  else none

/-- Whether a dialect has joins of this kind. MySQL has no full outer join. -/
def supports : Dialect → JoinKind → Bool
  | .mysql, .full => false
  | .mysql, .fullOuter => false
  | _, _ => true

@[simp] theorem ofText?_text (dialect : Dialect) :
    ofText? dialect.text = some dialect := by
  cases dialect <;> rfl

end Dialect
end DomainSql
