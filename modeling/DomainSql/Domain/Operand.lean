import DomainSql.Domain.Literal

/-!
# Operands

The right side of a condition is a literal, a reference to a field or a call of a
function. In JSON an object with the key `field` is a reference, an object with
the key `function` is a call, and everything else is a literal. So a text is
never a field by itself, while the arguments of a call are fields unless they are
wrapped as literals.
-/

namespace DomainSql

namespace Json

/-- The order in which the fields of an object are written. -/
inductive KeyOrder
  | sorted
  | declared
  deriving DecidableEq

end Json

/-- An argument of a function. -/
inductive Argument
  | field (path : String)
  | literal (value : Literal)
  deriving DecidableEq

namespace Argument

/-- The argument that a JSON value stands for. -/
def ofJson : Json → Except ExpressionError Argument
  | .str path => .ok (.field path)
  | .obj [("literal", value)] => do
      let value ← Literal.ofJson value
      pure (.literal value)
  | other => .error (.notArgument other)

/-- The JSON value of an argument. -/
def toJson : Argument → Json
  | .field path => .str path
  | .literal value => .obj [("literal", value.toJson)]

/-- The path of an argument that is a field. -/
def path? : Argument → Option String
  | .field path => some path
  | .literal _ => none

end Argument

/-- A call of a function. -/
structure FunctionCall where
  function : FunctionName
  arguments : List Argument
  deriving DecidableEq

namespace FunctionCall

/-- The call that the fields of a JSON object describe. A call without arguments
may leave them out. -/
def ofFields
    (fields : List (String × Json)) : Except ExpressionError FunctionCall := do
  let name ←
    match Json.fieldOf? "function" fields with
    | some (.str name) => pure name
    | _ => throw .functionNotText
  let function ←
    match FunctionName.ofText? name with
    | some function => pure function
    | none => throw (.unknownFunction name)
  match Json.fieldOf? "args" fields with
  | none => pure ⟨function, []⟩
  | some (.arr arguments) => do
      let arguments ← arguments.mapM Argument.ofJson
      pure ⟨function, arguments⟩
  | some other => throw (.argumentsNotArray other)

/-- The JSON value of a call. -/
def toJson
    (order : Json.KeyOrder)
    (call : FunctionCall) : Json :=
  let function := ("function", Json.str call.function.text)
  let arguments := ("args", Json.arr (call.arguments.map Argument.toJson))
  match order with
  | .sorted => .obj [arguments, function]
  | .declared => .obj [function, arguments]

/-- The paths of the arguments that are fields, in order. -/
def paths (call : FunctionCall) : List String :=
  call.arguments.filterMap Argument.path?

end FunctionCall

/-- The right side of a condition. -/
inductive Operand
  | literal (value : Literal)
  | field (path : String)
  | call (function : FunctionCall)
  deriving DecidableEq

namespace Operand

/-- The operand that a JSON value stands for. -/
def ofJson : Json → Except ExpressionError Operand
  | .obj fields =>
      match Json.fieldOf? "field" fields, Json.fieldOf? "function" fields with
      | some path, _ =>
          match fields, path with
          | [_], .str path => .ok (.field path)
          | _, _ => .error (.notFieldReference (.obj fields))
      | none, some _ => do
          let described ← FunctionCall.ofFields fields
          pure (.call described)
      | none, none => .error (.objectLiteral (.obj fields))
  | other => do
      let value ← Literal.ofJson other
      pure (.literal value)

/-- The JSON value of an operand. -/
def toJson
    (order : Json.KeyOrder) : Operand → Json
  | .literal value => value.toJson
  | .field path => .obj [("field", .str path)]
  | .call function => function.toJson order

end Operand
end DomainSql
