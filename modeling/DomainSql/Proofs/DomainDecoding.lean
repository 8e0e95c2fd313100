import DomainSql.Domain.Basic
import DomainSql.Proofs.Outcome

/-!
# Decoding domains

What the decoder accepts, function by function: the fields of a call, the object on the
right of a condition, the elements of a condition, and the text of a domain.
-/

namespace DomainSql

/-- An object is an argument when a literal is all that it has. -/
theorem Argument.succeeds_ofJson_obj_iff {fields : List (String × Json)} :
    Succeeds (Argument.ofJson (.obj fields)) ↔
      ∃ value, fields = [("literal", value)] ∧ Succeeds (Literal.ofJson value) := by
  unfold Argument.ofJson
  split
  · rename_i isText
    cases isText
  · rename_i value isLiteral
    cases isLiteral
    rw [succeeds_bind_pure_iff]
    simp
  · rename_i noText noLiteral
    refine iff_of_false (not_succeeds_error _) ?_
    rintro ⟨value, rfl, _⟩
    exact noLiteral value rfl

/-- The fields of a call hold the name of a function, and its arguments if it has any. -/
theorem FunctionCall.ofFields_eq_ok_iff
    {fields : List (String × Json)}
    {call : FunctionCall} :
    FunctionCall.ofFields fields = .ok call ↔
      ∃ name, Json.fieldOf? "function" fields = some (.str name) ∧
        FunctionName.ofText? name = some call.function ∧
        ((Json.fieldOf? "args" fields = none ∧ call.arguments = []) ∨
          ∃ arguments, Json.fieldOf? "args" fields = some (.arr arguments) ∧
            arguments.mapM Argument.ofJson = .ok call.arguments) := by
  obtain ⟨function, arguments⟩ := call
  unfold FunctionCall.ofFields
  constructor
  · intro decoded
    simp only at decoded
    split at decoded
    · rename_i name named
      obtain ⟨_, same, decoded⟩ := bind_eq_ok_iff.mp decoded
      cases same
      split at decoded
      · rename_i known
        obtain ⟨_, same, decoded⟩ := bind_eq_ok_iff.mp decoded
        cases same
        refine ⟨name, named, ?_⟩
        split at decoded
        · rename_i noArguments
          cases decoded
          exact ⟨known, .inl ⟨noArguments, rfl⟩⟩
        · rename_i values found
          obtain ⟨_, argumentsDecoded, decoded⟩ := bind_eq_ok_iff.mp decoded
          cases decoded
          exact ⟨known, .inr ⟨values, found, argumentsDecoded⟩⟩
        · cases decoded
      · cases decoded
    · cases decoded
  · rintro ⟨name, named, known, ⟨noArguments, rfl⟩ | ⟨values, found, argumentsDecoded⟩⟩
    · simp only [named, pure_bind, known, noArguments]
      rfl
    · simp only [named, pure_bind, known, found, argumentsDecoded]
      rfl

/-- An object on the right is a reference with a single field, or a call. -/
theorem Operand.ofJson_obj_eq_ok_iff
    {fields : List (String × Json)}
    {operand : Operand} :
    Operand.ofJson (.obj fields) = .ok operand ↔
      (∃ path, fields = [("field", .str path)] ∧ operand = .field path) ∨
      Json.fieldOf? "field" fields = none ∧
        ∃ call, FunctionCall.ofFields fields = .ok call ∧ operand = .call call := by
  rw [Operand.ofJson]
  constructor
  · intro decoded
    split at decoded
    · rename_i value _ found
      split at decoded
      · rename_i field path
        obtain ⟨key, other⟩ := field
        cases decoded
        simp only [Json.fieldOf?_cons, Json.fieldOf?_nil] at found
        split at found
        · rename_i same
          rw [same, Option.some.inj found]
          exact .inl ⟨path, rfl, rfl⟩
        · cases found
      · cases decoded
    · rename_i noField _
      obtain ⟨call, callDecoded, decoded⟩ := bind_eq_ok_iff.mp decoded
      cases decoded
      exact .inr ⟨noField, call, callDecoded, rfl⟩
    · cases decoded
  · rintro (⟨path, rfl, rfl⟩ | ⟨noField, call, decoded, rfl⟩)
    · rfl
    · obtain ⟨name, named, _⟩ := FunctionCall.ofFields_eq_ok_iff.mp decoded
      simp only [noField, named, decoded]
      rfl

/-- A condition is an array of a field, an operator and an operand. -/
theorem Condition.ofElements_eq_ok_iff
    {elements : List Json}
    {condition : Condition} :
    Condition.ofElements elements = .ok condition ↔
      ∃ operand, elements = [.str condition.field, .str condition.operator, operand] ∧
        Operand.ofJson operand = .ok condition.operand := by
  obtain ⟨field, operator, operand⟩ := condition
  constructor
  · intro decoded
    unfold Condition.ofElements at decoded
    split at decoded
    · simp only at decoded
      split at decoded
      · split at decoded
        · obtain ⟨_, same, decoded⟩ := bind_eq_ok_iff.mp decoded
          cases same
          obtain ⟨_, same, decoded⟩ := bind_eq_ok_iff.mp decoded
          cases same
          obtain ⟨_, operandDecoded, decoded⟩ := bind_eq_ok_iff.mp decoded
          cases decoded
          exact ⟨_, rfl, operandDecoded⟩
        · cases decoded
      · cases decoded
    · cases decoded
  · rintro ⟨value, rfl, operandDecoded⟩
    simp only [Condition.ofElements, pure_bind, operandDecoded]
    rfl

/-- A text is read as a domain when it is read as a value, and the value is decoded. -/
theorem Domain.read_eq_ok_iff
    {text : String}
    {domain : Domain} :
    Domain.read text = .ok domain ↔
      ∃ json, Json.readWritten text = .ok json ∧ Domain.ofJson json.canonical = .ok domain := by
  rw [Domain.read, Json.read]
  cases Json.readWritten text with
  | error fault => simp [Except.map, Except.mapError, bind, Except.bind]
  | ok json => simp [Except.map, Except.mapError, bind, Except.bind]

end DomainSql
