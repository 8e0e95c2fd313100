import DomainSql.Proofs.DomainDecoding
import DomainSql.Proofs.DomainEncoding
import DomainSql.Proofs.JsonTexts
import DomainSql.Proofs.SortedFields

/-!
# Texts of domains

The encoding of a domain has its fields in one of two orders, and the reader brings them
into the order of the encoder. Without floating-point numbers its text keeps its numbers.
So the text is read back as the domain, unless more arrays and objects are open in it at
once than the reader has room for.
-/

namespace DomainSql

/-! ## Numbers -/

mutual

/-- Without floating-point numbers the text of a literal keeps its numbers. -/
theorem Literal.keepsNumbers_toJson : ∀ {literal : Literal},
    (∀ value, .float value ∉ literal.numbers) → literal.toJson.KeepsNumbers
  | .null, _ => trivial
  | .bool _, _ => trivial
  | .int value, _ =>
      have ⟨lower, upper⟩ := fits_toInt value
      Json.isKeptAs_intChars lower (upper.trans_lt (by decide))
  | .float value, floatless => absurd List.mem_cons_self (floatless value)
  | .text _, _ => trivial
  | .list _, floatless => Literal.itemsKeepNumbers_toJsonItems floatless

theorem Literal.itemsKeepNumbers_toJsonItems : ∀ {literals : List Literal},
    (∀ value, .float value ∉ numbersOf literals) →
      Json.ItemsKeepNumbers (toJsonItems literals)
  | [], _ => trivial
  | _ :: _, floatless =>
      ⟨Literal.keepsNumbers_toJson fun value inFirst =>
          floatless value (List.mem_append_left _ inFirst),
        Literal.itemsKeepNumbers_toJsonItems fun value inRest =>
          floatless value (List.mem_append_right _ inRest)⟩

end

/-- Numbers that are not floating-point numbers are finite. -/
theorem Literal.forall_isFinite
    {numbers : List Literal}
    (floatless : ∀ value, .float value ∉ numbers) :
    ∀ number ∈ numbers, number.IsFinite := by
  intro number inNumbers
  cases number with
  | float value => exact absurd inNumbers (floatless value)
  | _ => exact trivial

theorem Json.itemsKeepNumbers_iff {items : List Json} :
    ItemsKeepNumbers items ↔ ∀ item ∈ items, item.KeepsNumbers := by
  induction items with
  | nil => simp [ItemsKeepNumbers]
  | cons item rest inductionHypothesis => simp [ItemsKeepNumbers, inductionHypothesis]

theorem Argument.keepsNumbers_toJson
    {argument : Argument}
    (floatless : ∀ value, .float value ∉ argument.numbers) :
    argument.toJson.KeepsNumbers := by
  cases argument with
  | field path => exact trivial
  | literal value => exact ⟨Literal.keepsNumbers_toJson floatless, trivial⟩

theorem Operand.keepsNumbers_toJson
    {operand : Operand}
    (floatless : ∀ value, .float value ∉ operand.numbers)
    (order : Json.KeyOrder) :
    (operand.toJson order).KeepsNumbers := by
  cases operand with
  | literal value => exact Literal.keepsNumbers_toJson floatless
  | field path => exact ⟨trivial, trivial⟩
  | call function =>
      have arguments : Json.ItemsKeepNumbers (function.arguments.map Argument.toJson) := by
        rw [Json.itemsKeepNumbers_iff, List.forall_mem_map]
        exact fun argument inArguments => Argument.keepsNumbers_toJson fun value inNumbers =>
          floatless value (List.mem_flatMap.mpr ⟨argument, inArguments, inNumbers⟩)
      cases order with
      | sorted => exact ⟨arguments, trivial, trivial⟩
      | declared => exact ⟨trivial, arguments, trivial⟩

/-! ## The order of the fields -/

mutual

/-- A literal has no fields. -/
@[simp] theorem Literal.canonical_toJson : ∀ literal : Literal,
    literal.toJson.canonical = literal.toJson
  | .null => rfl
  | .bool _ => rfl
  | .int _ => rfl
  | .float value => by
      rw [toJson]
      split <;> rfl
  | .text _ => rfl
  | .list items => congrArg Json.arr (Literal.canonicalItems_toJsonItems items)

theorem Literal.canonicalItems_toJsonItems : ∀ literals : List Literal,
    Json.canonicalItems (toJsonItems literals) = toJsonItems literals
  | [] => rfl
  | literal :: rest => by
      rw [toJsonItems, Json.canonicalItems, Literal.canonical_toJson literal,
        Literal.canonicalItems_toJsonItems rest]

end

@[simp] theorem Argument.canonical_toJson (argument : Argument) :
    argument.toJson.canonical = argument.toJson := by
  cases argument with
  | field path => rfl
  | literal value =>
      simp only [toJson, Json.canonical, Json.canonicalFields, Literal.canonical_toJson]
      rfl

theorem Json.canonicalItems_eq_map (items : List Json) :
    canonicalItems items = items.map canonical := by
  induction items with
  | nil => rfl
  | cons item rest inductionHypothesis =>
      rw [canonicalItems, inductionHypothesis, List.map_cons]

@[simp] theorem FunctionCall.canonical_toJson
    (order : Json.KeyOrder)
    (call : FunctionCall) :
    (call.toJson order).canonical = call.toJson .sorted := by
  have arguments : Json.canonicalItems (call.arguments.map Argument.toJson) =
      call.arguments.map Argument.toJson := by
    rw [Json.canonicalItems_eq_map, List.map_map]
    exact List.map_congr_left fun argument _ => argument.canonical_toJson
  have ascend : ["args", "function"].Pairwise (· < ·) := by decide
  cases order with
  | sorted =>
      simp only [toJson, Json.canonical, Json.canonicalFields, arguments]
      exact congrArg Json.obj (Json.KeysAscend.sortFields_eq (Json.keysAscend_iff.mpr ascend))
  | declared =>
      simp only [toJson, Json.canonical, Json.canonicalFields, arguments]
      exact congrArg Json.obj (if_pos (by decide : "args" < "function"))

@[simp] theorem Operand.canonical_toJson
    (order : Json.KeyOrder)
    (operand : Operand) :
    (operand.toJson order).canonical = operand.toJson .sorted := by
  cases operand with
  | literal value => exact value.canonical_toJson
  | field path => rfl
  | call function => exact function.canonical_toJson order

@[simp] theorem Item.canonical_toJson
    (order : Json.KeyOrder)
    (item : Item) :
    (item.toJson order).canonical = item.toJson .sorted := by
  cases item with
  | marker text => rfl
  | condition inner =>
      simp [toJson, Condition.toJson, Json.canonical, Json.canonicalItems]

namespace Domain

@[simp] theorem canonical_toJson
    (order : Json.KeyOrder)
    (domain : Domain) :
    (domain.toJson order).canonical = domain.toJson .sorted := by
  rw [toJson, Json.canonical, Json.canonicalItems_eq_map, List.map_map, toJson]
  exact congrArg Json.arr (List.map_congr_left fun item _ => item.canonical_toJson order)

/-- Without floating-point numbers the text of a domain keeps its numbers. -/
theorem keepsNumbers_toJson
    {domain : Domain}
    (floatless : ∀ value, .float value ∉ domain.numbers)
    (order : Json.KeyOrder) :
    (domain.toJson order).KeepsNumbers := by
  rw [toJson, Json.KeepsNumbers, Json.itemsKeepNumbers_iff, List.forall_mem_map]
  intro item inDomain
  cases item with
  | marker text => exact trivial
  | condition inner =>
      refine ⟨trivial, trivial, Operand.keepsNumbers_toJson (fun value inNumbers => ?_) order,
        trivial⟩
      exact floatless value (List.mem_flatMap.mpr ⟨_, inDomain, inNumbers⟩)

/-- A text of a domain without floating-point numbers is read as this domain, and as
nothing else, as long as there is room for its arrays and objects. -/
theorem read_text_eq_ok_iff
    {domain : Domain}
    (floatless : ∀ value, .float value ∉ domain.numbers)
    {order : Json.KeyOrder}
    {text : String}
    (output : text = (domain.toJson order).compact ∨ text = (domain.toJson order).indented)
    {other : Domain} :
    read text = .ok other ↔ (domain.toJson order).depth ≤ 127 ∧ other = domain := by
  have decoded : ofJson (domain.toJson order).canonical = .ok domain := by
    rw [canonical_toJson, toJson, ofJson, mapM_map_eq_ok_iff]
    exact fun item inDomain => (item.ofJson_toJson_iff .sorted).mpr <|
      Literal.forall_isFinite fun value inNumbers =>
        floatless value (List.mem_flatMap.mpr ⟨item, inDomain, inNumbers⟩)
  rw [read_eq_ok_iff, (keepsNumbers_toJson floatless order).decoded_eq_ok_iff decoded output]

end Domain

end DomainSql
