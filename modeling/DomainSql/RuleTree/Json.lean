import DomainSql.RuleTree.Basic

/-!
# Rule trees as JSON

An object with the key `combinator` or `rules` is a query, any other object is a
rule. The first key that is missing or unfit is named.
-/

namespace DomainSql

namespace Rule

/-- The text under a key, which has to be there. -/
def textOf
    (key : String)
    (fields : List (String × Json)) : Except RuleError String :=
  match Json.fieldOf? key fields with
  | some (.str text) => .ok text
  | _ => .error (.missing key)

/-- The rule that the fields of a JSON object describe. -/
def ofFields
    (fields : List (String × Json)) : Except RuleError Rule := do
  let field ← textOf "field" fields
  let operator ← textOf "operator" fields
  match Json.fieldOf? "value" fields with
  | none => throw (.missing "value")
  | some value => do
      let operand ← (Operand.ofJson value).mapError (.value field)
      pure ⟨field, operator, operand⟩

/-- The JSON value of a rule. -/
def toJson
    (order : Json.KeyOrder)
    (rule : Rule) : Json :=
  .obj [("field", .str rule.field), ("operator", .str rule.operator),
    ("value", rule.operand.toJson order)]

end Rule

namespace RuleTree

/-- The combinator that the fields of a JSON object name. -/
def combinatorOf
    (fields : List (String × Json)) : Except RuleError Combinator :=
  match Json.fieldOf? "combinator" fields with
  | none => .error (.missing "combinator")
  | some name =>
      match name.text?.bind Combinator.ofText? with
      | some combinator => .ok combinator
      | none => .error (.unknownCombinator name)

mutual

/-- The rule tree that a JSON value stands for. -/
def ofJson : Json → Except RuleError RuleTree
  | .obj fields =>
      if (Json.fieldOf? "combinator" fields).isSome
          || (Json.fieldOf? "rules" fields).isSome then do
        let combinator ← combinatorOf fields
        let members ← membersOfFields fields
        pure (.query combinator members)
      else do
        let described ← Rule.ofFields fields
        pure (.rule described)
  | .null => .error (.notObject .null)
  | .bool value => .error (.notObject (.bool value))
  | .int value => .error (.notObject (.int value))
  | .float value => .error (.notObject (.float value))
  | .str value => .error (.notObject (.str value))
  | .arr items => .error (.notObject (.arr items))

/-- The trees under the key `rules`. -/
def membersOfFields : List (String × Json) → Except RuleError (List RuleTree)
  | [] => .error (.missing "rules")
  | (key, value) :: rest =>
      if key = "rules" then membersOfValue value else membersOfFields rest

/-- The trees that an array holds. -/
def membersOfValue : Json → Except RuleError (List RuleTree)
  | .arr items => membersOfItems items
  | _ => .error (.missing "rules")

/-- The trees that JSON values stand for, up to the first that is none. -/
def membersOfItems : List Json → Except RuleError (List RuleTree)
  | [] => .ok []
  | item :: rest => do
      let member ← ofJson item
      let members ← membersOfItems rest
      pure (member :: members)

end

mutual

/-- The JSON value of a rule tree. -/
def toJson (order : Json.KeyOrder) : RuleTree → Json
  | .rule inner => inner.toJson order
  | .query combinator members =>
      .obj [("combinator", .str combinator.text),
        ("rules", .arr (toJsonMembers order members))]

/-- The JSON values of rule trees. -/
def toJsonMembers (order : Json.KeyOrder) : List RuleTree → List Json
  | [] => []
  | member :: rest => member.toJson order :: toJsonMembers order rest

end

/-- The rule tree that a JSON text holds. -/
def read (text : String) : Except RuleError RuleTree := do
  let json ← (Json.read text).mapError .notJson
  ofJson json

/-- The JSON text of a rule tree. -/
def write
    (order : Json.KeyOrder)
    (tree : RuleTree) : String :=
  (tree.toJson order).compact

end RuleTree
end DomainSql
