import DomainSql.Filter.Bound
import DomainSql.Formula.Reading

/-!
# Filters

A filter is a domain whose fields are resolved in a session of its own: the
formula over its bound conditions, and the joins that the formula needs.
-/

namespace DomainSql

namespace Domain

/-- The formula of a domain over conditions that are bound in a session. -/
def bind (domain : Domain) : Resolving (Formula BoundCondition) :=
  domain.formulaWith Condition.bind

end Domain

/-- A domain with its fields resolved. -/
structure Filter where
  root : Table
  joins : List Join
  formula : Formula BoundCondition

namespace Filter

/-- Resolve the fields of a domain in a new session. -/
def ofDomain
    (table : String)
    (foreignKeys : ForeignKeys)
    (domain : Domain) : Except Error Filter :=
  match domain.bind.run.run (Session.start table foreignKeys) with
  | (.ok formula, session) => .ok ⟨session.root, session.joins, formula⟩
  | (.error error, _) => .error error

end Filter
end DomainSql
