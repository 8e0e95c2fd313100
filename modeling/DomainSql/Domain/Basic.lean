import DomainSql.Domain.Operand

/-!
# Domains

A domain is a filter in prefix notation: a list of conditions and markers. The
operator of a condition and the text of a marker are kept as they are written;
they are checked when the domain is given a meaning.
-/

namespace DomainSql

/-- A comparison of a field with an operand. -/
structure Condition where
  field : String
  operator : String
  operand : Operand
  deriving DecidableEq

/-- One element of a domain. -/
inductive Item
  | condition (inner : Condition)
  | marker (text : String)
  deriving DecidableEq

/-- A filter in prefix notation. -/
abbrev Domain := List Item

namespace Condition

/-- The condition that the elements of a JSON array describe. -/
def ofElements : List Json → Except ExpressionError Condition
  | [field, operator, operand] => do
      let field ←
        match field with
        | .str field => pure field
        | other => throw (.fieldNotText other)
      let operator ←
        match operator with
        | .str operator => pure operator
        | other => throw (.operatorNotText other)
      let operand ← Operand.ofJson operand
      pure ⟨field, operator, operand⟩
  | elements => throw (.conditionLength elements.length)

/-- The JSON value of a condition. -/
def toJson
    (order : Json.KeyOrder)
    (condition : Condition) : Json :=
  .arr [.str condition.field, .str condition.operator,
    condition.operand.toJson order]

end Condition

namespace Item

/-- The item that a JSON value stands for. -/
def ofJson : Json → Except ExpressionError Item
  | .str text => .ok (.marker text)
  | .arr elements => do
      let described ← Condition.ofElements elements
      pure (.condition described)
  | other => .error (.notItem other)

/-- The JSON value of an item. -/
def toJson
    (order : Json.KeyOrder) : Item → Json
  | .condition inner => inner.toJson order
  | .marker text => .str text

/-- The condition of an item that is one. -/
def condition? : Item → Option Condition
  | .condition inner => some inner
  | .marker _ => none

end Item

namespace Domain

/-- The domain that a JSON value stands for. -/
def ofJson : Json → Except ExpressionError Domain
  | .arr items => items.mapM Item.ofJson
  | _ => .error .notArray

/-- The JSON value of a domain. -/
def toJson
    (order : Json.KeyOrder)
    (domain : Domain) : Json :=
  .arr (domain.map (Item.toJson order))

/-- The domain that a JSON text holds. -/
def read (text : String) : Except ExpressionError Domain := do
  let json ← (Json.read text).mapError .notJson
  ofJson json

/-- The JSON text of a domain. -/
def write
    (order : Json.KeyOrder)
    (domain : Domain) : String :=
  (toJson order domain).compact

/-- The conditions of a domain, in order. -/
def conditions (domain : Domain) : List Condition :=
  domain.filterMap Item.condition?

end Domain
end DomainSql
