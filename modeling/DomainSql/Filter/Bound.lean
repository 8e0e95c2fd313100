import DomainSql.Domain.Basic
import DomainSql.Domain.Comparison
import DomainSql.Join.Session

/-!
# Bound conditions

Binding a condition replaces every field in it by the column that the field
stands for in a session. The operator is checked first, then the left field is
resolved, then the fields on the right from left to right.
-/

namespace DomainSql

/-- An argument with its field resolved. -/
inductive BoundArgument
  | column (column : Column)
  | literal (value : Literal)
  deriving DecidableEq

/-- A call with the fields among its arguments resolved. -/
structure BoundCall where
  function : FunctionName
  arguments : List BoundArgument
  deriving DecidableEq

/-- An operand with its fields resolved. -/
inductive BoundOperand
  | literal (value : Literal)
  | column (column : Column)
  | call (function : BoundCall)
  deriving DecidableEq

/-- A condition with its fields resolved. -/
structure BoundCondition where
  column : Column
  comparison : Comparison
  operand : BoundOperand
  deriving DecidableEq

namespace Argument

/-- Resolve the field of an argument. -/
def bind : Argument → Resolving BoundArgument
  | .field path => do
      let resolved ← Session.resolveField path
      pure (.column resolved.column)
  | .literal value => pure (.literal value)

end Argument

namespace FunctionCall

/-- Resolve the fields of a call, whose number of arguments is checked first. -/
def bind (call : FunctionCall) : Resolving BoundCall := do
  if call.function.takes call.arguments.length then do
    let bound ← call.arguments.mapM Argument.bind
    pure ⟨call.function, bound⟩
  else
    throw (.expression (.argumentCount call.function call.arguments.length))

end FunctionCall

namespace Operand

/-- Resolve the fields of an operand. -/
def bind : Operand → Resolving BoundOperand
  | .literal value => pure (.literal value)
  | .field path => do
      let resolved ← Session.resolveField path
      pure (.column resolved.column)
  | .call function => do
      let bound ← function.bind
      pure (.call bound)

end Operand

namespace Condition

/-- Resolve the fields of a condition. -/
def bind (condition : Condition) : Resolving BoundCondition := do
  match Comparison.ofToken? condition.operator with
  | none => throw (.unsupportedOperator condition.operator)
  | some comparison => do
      let resolved ← Session.resolveField condition.field
      let operand ← condition.operand.bind
      pure ⟨resolved.column, comparison, operand⟩

end Condition
end DomainSql
