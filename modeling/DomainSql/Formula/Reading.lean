import DomainSql.Domain.Basic
import DomainSql.Domain.Comparison
import DomainSql.Formula.Basic

/-!
# The formula of a domain

A domain is read from its end to its start. A condition becomes a leaf; a marker
takes as many of the operands behind it as it needs and puts one in their place.
The operands that are left when the start is reached form a conjunction.

What a condition becomes is the business of an action, which may fail and may
keep a state. The actions run from the last condition to the first.
-/

namespace DomainSql

namespace Marker

variable {Leaf : Type}

/-- Replace the operands of a marker, which stand at the front of a list, by the
formula that the marker makes of them. -/
def apply
    (marker : Marker)
    (position : Nat)
    (operands : List (Formula Leaf)) :
    Except ExpressionError (List (Formula Leaf)) :=
  match marker, operands with
  | .and, left :: right :: rest => .ok (.conjunction [left, right] :: rest)
  | .or, left :: right :: rest => .ok (.disjunction [left, right] :: rest)
  | .not, inner :: rest => .ok (.not inner :: rest)
  | marker, operands =>
      .error (.missingOperands marker position operands.length)

end Marker

namespace Domain

variable {Leaf : Type} {Action : Type → Type}
  [Monad Action] [MonadExceptOf Error Action]

/-- The operands that the items from a position on leave, the leftmost first. -/
def operandsWith
    (bind : Condition → Action Leaf) :
    Nat → Domain → Action (List (Formula Leaf))
  | _, [] => pure []
  | position, item :: rest => do
      let operands ← operandsWith bind (position + 1) rest
      match item with
      | .condition condition => do
          let leaf ← bind condition
          pure (.leaf leaf :: operands)
      | .marker text =>
          match Marker.ofText? text with
          | none => throw (.expression (.unknownMarker text position))
          | some marker =>
              match marker.apply position operands with
              | .ok operands => pure operands
              | .error error => throw (.expression error)

/-- The formula of a domain, with what an action makes of each condition for its
leaves. -/
def formulaWith
    (bind : Condition → Action Leaf)
    (domain : Domain) : Action (Formula Leaf) := do
  let operands ← operandsWith bind 0 domain
  pure (.conjunction operands)

/-- The formula of a domain over its conditions. The operator of every condition
has to be known. -/
def formula (domain : Domain) : Except Error (Formula Condition) :=
  domain.formulaWith fun condition =>
    match Comparison.ofToken? condition.operator with
    | none => throw (.unsupportedOperator condition.operator)
    | some _ => pure condition

end Domain
end DomainSql
