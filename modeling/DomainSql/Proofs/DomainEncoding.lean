import DomainSql.Proofs.LiteralNumbers

/-!
# Encoding domains

The encoding of a domain has no tags: literals, references, calls and arguments, and
conditions and markers, are told apart by the shape of their JSON values alone. All the
same the decoder gets back what was encoded. The one thing that is lost is a
floating-point number that is not finite, because JSON has no such number.
-/

namespace DomainSql

/-! ## Literals -/

/-- A literal that is not an infinity or undefined. -/
def Literal.IsFinite : Literal → Prop
  | .float value => value.isFinite = true
  | _ => True

instance (literal : Literal) : Decidable literal.IsFinite := by
  cases literal <;> unfold Literal.IsFinite <;> infer_instance

/-- Every integer of sixty-four bits is in the range of those that are kept. -/
theorem Literal.fits_toInt (value : Int64) : fits value.toInt :=
  ⟨value.minValue_le_toInt, value.toInt_le⟩

/-- Encoded entries are decoded one by one. -/
theorem mapM_map_eq_ok_iff
    {Failure Entry Code : Type}
    {encode : Entry → Code}
    {decode : Code → Except Failure Entry}
    {entries : List Entry} :
    (entries.map encode).mapM decode = .ok entries ↔
      ∀ entry ∈ entries, decode (encode entry) = .ok entry := by
  rw [mapM_eq_ok_iff, List.forall₂_map_left_iff, List.forall₂_same]

mutual

theorem Literal.ofJson_toJson_iff : ∀ literal : Literal,
    ofJson literal.toJson = .ok literal ↔ ∀ number ∈ literal.numbers, number.IsFinite
  | .null => by simp [toJson, ofJson, numbers]
  | .bool _ => by simp [toJson, ofJson, numbers]
  | .int value => by simp [toJson, ofJson, numbers, IsFinite, fits_toInt]
  | .float value => by
      by_cases finite : value.isFinite = true
      · simp [toJson, ofJson, numbers, IsFinite, finite]
      · simp [toJson, ofJson, numbers, IsFinite, finite]
  | .text _ => by simp [toJson, ofJson, numbers]
  | .list items => by
      rw [toJson, ofJson, numbers, ← ofJsonItems_toJsonItems_iff items, bind_eq_ok_iff]
      simp [pure, Except.pure]

theorem Literal.ofJsonItems_toJsonItems_iff : ∀ literals : List Literal,
    ofJsonItems (toJsonItems literals) = .ok literals ↔
      ∀ number ∈ numbersOf literals, number.IsFinite
  | [] => by simp [toJsonItems, ofJsonItems, numbersOf]
  | literal :: rest => by
      rw [toJsonItems, ofJsonItems, numbersOf, List.forall_mem_append,
        ← ofJson_toJson_iff literal, ← ofJsonItems_toJsonItems_iff rest, bind_eq_ok_iff]
      simp [bind_eq_ok_iff, pure, Except.pure]

end

/-! ## Operands -/

theorem Argument.ofJson_toJson_iff (argument : Argument) :
    ofJson argument.toJson = .ok argument ↔
      ∀ number ∈ argument.numbers, number.IsFinite := by
  cases argument with
  | field path => simp [toJson, ofJson, numbers]
  | literal value =>
      rw [toJson, ofJson, numbers, ← Literal.ofJson_toJson_iff, bind_eq_ok_iff]
      simp [pure, Except.pure]

/-- The encoding of a call is an object with these fields, in one order or the other. -/
theorem FunctionCall.exists_fields_eq
    (order : Json.KeyOrder)
    (call : FunctionCall) :
    ∃ fields, call.toJson order = .obj fields ∧
      Json.fieldOf? "function" fields = some (.str call.function.text) ∧
      Json.fieldOf? "args" fields = some (.arr (call.arguments.map Argument.toJson)) ∧
      Json.fieldOf? "field" fields = none ∧ fields.length = 2 := by
  cases order with
  | sorted => exact ⟨_, rfl, rfl, rfl, rfl, rfl⟩
  | declared => exact ⟨_, rfl, rfl, rfl, rfl, rfl⟩

/-- The encoding of a literal is no object, so it is decoded as a literal. -/
theorem Operand.ofJson_literal (literal : Literal) :
    ofJson literal.toJson =
      (Literal.ofJson literal.toJson >>= fun value => pure (.literal value)) := by
  cases literal with
  | float value =>
      rw [Literal.toJson]
      split <;> rfl
  | _ => rfl

theorem FunctionCall.ofFields_toJson_iff
    {order : Json.KeyOrder}
    {call : FunctionCall}
    {fields : List (String × Json)}
    (encoded : call.toJson order = .obj fields) :
    ofFields fields = .ok call ↔
      ∀ argument ∈ call.arguments, ∀ number ∈ argument.numbers, number.IsFinite := by
  obtain ⟨_, same, named, arguments, _⟩ := call.exists_fields_eq order
  cases encoded.symm.trans same
  have decoded : (call.arguments.map Argument.toJson).mapM Argument.ofJson =
        .ok call.arguments ↔
      ∀ argument ∈ call.arguments, ∀ number ∈ argument.numbers, number.IsFinite := by
    rw [mapM_map_eq_ok_iff]
    simp only [Argument.ofJson_toJson_iff]
  rw [ofFields_eq_ok_iff, named, arguments, ← decoded]
  simp

theorem Operand.ofJson_toJson_iff
    (order : Json.KeyOrder)
    (operand : Operand) :
    ofJson (operand.toJson order) = .ok operand ↔
      ∀ number ∈ operand.numbers, number.IsFinite := by
  cases operand with
  | literal value =>
      rw [toJson, ofJson_literal, numbers, ← Literal.ofJson_toJson_iff, bind_eq_ok_iff]
      simp [pure, Except.pure]
  | field path => simp [toJson, ofJson, numbers]
  | call function =>
      obtain ⟨fields, encoded, _, _, noField, two⟩ := function.exists_fields_eq order
      rw [toJson, encoded, ofJson_obj_eq_ok_iff, numbers, List.forall_mem_flatMap,
        ← FunctionCall.ofFields_toJson_iff encoded]
      simp [noField]

/-! ## Domains -/

theorem Item.ofJson_toJson_iff
    (order : Json.KeyOrder)
    (item : Item) :
    ofJson (item.toJson order) = .ok item ↔ ∀ number ∈ item.numbers, number.IsFinite := by
  cases item with
  | marker text => simp [toJson, ofJson, numbers]
  | condition inner =>
      rw [toJson, Condition.toJson, ofJson, numbers, ← Operand.ofJson_toJson_iff order,
        bind_eq_ok_iff]
      simp [Condition.ofElements_eq_ok_iff, pure, Except.pure]

/-- What is decoded from the encoding of a domain is that domain, exactly when all of its
numbers are finite. -/
theorem Domain.encoded_domain_is_decoded_iff_finite
    (order : Json.KeyOrder)
    (domain : Domain) :
    ofJson (domain.toJson order) = .ok domain ↔
      ∀ number ∈ domain.numbers, number.IsFinite := by
  rw [toJson, ofJson, mapM_map_eq_ok_iff, numbers, List.forall_mem_flatMap]
  simp [Item.ofJson_toJson_iff]

end DomainSql
