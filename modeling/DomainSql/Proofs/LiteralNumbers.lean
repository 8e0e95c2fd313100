import DomainSql.Proofs.DomainDecoding
import DomainSql.Proofs.JsonNumbers

/-!
# The numbers of a domain

The numbers of a domain come from the numerals that stand as literals in its text, one
from each, in order. On the way a numeral is read as a JSON number, and the objects
around it are brought into canonical form; then the number is decoded to a literal.
-/

namespace DomainSql
namespace Json

/-! ## The numerals that stand as literals -/

namespace Written

mutual

/-- The numerals of a value that stands as a literal, in order. -/
def literalNumerals : Written → List Numeral
  | .number numeral => [numeral]
  | .arr items => literalNumeralsOf items
  | _ => []

/-- The numerals of values that stand as literals, in order. -/
def literalNumeralsOf : List Written → List Numeral
  | [] => []
  | item :: rest => literalNumerals item ++ literalNumeralsOf rest

end

/-- The numerals of an argument, which are those of its literal. -/
def argumentNumerals : Written → List Numeral
  | .obj fields => ((lastOf? "literal" fields).map literalNumerals).getD []
  | _ => []

/-- The numerals of an operand: those of the arguments of a call, or of a literal. -/
def operandNumerals : Written → List Numeral
  | .obj fields =>
      match lastOf? "args" fields with
      | some (.arr arguments) => arguments.flatMap argumentNumerals
      | _ => []
  | other => other.literalNumerals

/-- The numerals of an item of a domain, which are those of the operand of a condition. -/
def itemNumerals : Written → List Numeral
  | .arr [_, _, operand] => operand.operandNumerals
  | _ => []

/-- The numerals that stand as literals in a domain, in order. -/
def domainNumerals : Written → List Numeral
  | .arr items => items.flatMap itemNumerals
  | _ => []

end Written

mutual

/-- The numbers of a value that stands as a literal. -/
def literalNumbers : Json → List Json
  | .int value => [.int value]
  | .float value => [.float value]
  | .arr items => literalNumbersOf items
  | _ => []

/-- The numbers of values that stand as literals. -/
def literalNumbersOf : List Json → List Json
  | [] => []
  | item :: rest => literalNumbers item ++ literalNumbersOf rest

end

/-- The numbers of an argument. -/
def argumentNumbers : Json → List Json
  | .obj fields => ((fieldOf? "literal" fields).map literalNumbers).getD []
  | _ => []

/-- The numbers of an operand. -/
def operandNumbers : Json → List Json
  | .obj fields =>
      match fieldOf? "args" fields with
      | some (.arr arguments) => arguments.flatMap argumentNumbers
      | _ => []
  | other => other.literalNumbers

/-- The numbers of an item of a domain. -/
def itemNumbers : Json → List Json
  | .arr [_, _, operand] => operand.operandNumbers
  | _ => []

/-- The numbers that stand as literals in a domain. -/
def domainNumbers : Json → List Json
  | .arr items => items.flatMap itemNumbers
  | _ => []

/-! ## From numerals to numbers -/

/-- The number that a numeral is read as. -/
def Numeral.IsReadAs
    (numeral : Numeral)
    (number : Json) : Prop :=
  numeral.json? = some number

namespace Written

/-- The value in canonical form that what is written is read as. -/
def IsReadAs
    (room : Nat)
    (written : Written)
    (value : Json) : Prop :=
  ∃ json, written.json? room = some json ∧ value = json.canonical

theorem IsReadAs.of_number
    {room : Nat}
    {numeral : Numeral}
    {value : Json}
    (read : (Written.number numeral).IsReadAs room value) :
    numeral.IsReadAs value ∧ ((∃ int, value = .int int) ∨ ∃ float, value = .float float) := by
  obtain ⟨number, given, rfl⟩ := read
  have isRead : numeral.json? = some number := given
  rcases Numeral.int_or_float_of_json? isRead with ⟨int, rfl⟩ | ⟨float, rfl⟩
  · exact ⟨isRead, .inl ⟨int, rfl⟩⟩
  · exact ⟨isRead, .inr ⟨float, rfl⟩⟩

/-- The items of an array are read one by one. -/
theorem IsReadAs.of_arr
    {room : Nat}
    {items : List Written}
    {value : Json}
    (read : (Written.arr items).IsReadAs room value) :
    ∃ less values, value = .arr values ∧
      List.Forall₂ (fun item value => item.IsReadAs less value) items values := by
  obtain ⟨json, given, rfl⟩ := read
  cases room with
  | zero => cases given
  | succ less =>
      obtain ⟨values, itemsGiven, rfl⟩ := Option.map_eq_some_iff.mp given
      refine ⟨less, canonicalItems values, rfl, ?_⟩
      clear given
      induction items generalizing values with
      | nil =>
          cases itemsGiven
          exact .nil
      | cons item rest inductionHypothesis =>
          obtain ⟨value, itemGiven, given⟩ := Option.bind_eq_some_iff.mp itemsGiven
          obtain ⟨values, restGiven, rfl⟩ := Option.map_eq_some_iff.mp given
          exact .cons ⟨value, itemGiven, rfl⟩ (inductionHypothesis values restGiven)

/-- What an object has at a key is read from the last of its fields with that key. -/
theorem IsReadAs.of_obj
    {room : Nat}
    {fields : List (String × Written)}
    {value : Json}
    (read : (Written.obj fields).IsReadAs room value) :
    ∃ less values, value = .obj values ∧ ∀ key,
      Option.Rel (fun inner value => inner.IsReadAs less value)
        (lastOf? key fields) (fieldOf? key values) := by
  obtain ⟨json, given, rfl⟩ := read
  cases room with
  | zero => cases given
  | succ less =>
      obtain ⟨values, fieldsGiven, rfl⟩ := Option.map_eq_some_iff.mp given
      refine ⟨less, sortFields (canonicalFields values), rfl, fun key => ?_⟩
      rw [fieldOf?_sortFields, canonicalFields_eq_map]
      clear given
      induction fields generalizing values with
      | nil =>
          cases fieldsGiven
          exact .none
      | cons field rest inductionHypothesis =>
          obtain ⟨name, inner⟩ := field
          obtain ⟨value, innerGiven, given⟩ := Option.bind_eq_some_iff.mp fieldsGiven
          obtain ⟨values, restGiven, rfl⟩ := Option.map_eq_some_iff.mp given
          have others := inductionHypothesis values restGiven
          rw [List.map_cons, lastOf?, lastOf?]
          generalize lastOf? key rest = left at others ⊢
          generalize lastOf? key (values.map fun field => (field.1, field.2.canonical)) = right
            at others ⊢
          cases others with
          | some isRead => exact .some isRead
          | none =>
              rw [Option.none_or, Option.none_or]
              by_cases same : name = key
              · rw [if_pos same, if_pos same]
                exact .some ⟨value, innerGiven, rfl⟩
              · rw [if_neg same, if_neg same]
                exact .none

mutual

theorem literalNumbers_of_isReadAs : ∀ (written : Written) {room : Nat} {value : Json},
    written.IsReadAs room value →
      List.Forall₂ Numeral.IsReadAs written.literalNumerals value.literalNumbers
  | .null, _, _, read => by
      obtain ⟨_, given, rfl⟩ := read
      cases given
      exact .nil
  | .bool _, _, _, read => by
      obtain ⟨_, given, rfl⟩ := read
      cases given
      exact .nil
  | .number numeral, _, _, read => by
      obtain ⟨isRead, ⟨int, rfl⟩ | ⟨float, rfl⟩⟩ := read.of_number <;>
        exact .cons isRead .nil
  | .str _, _, _, read => by
      obtain ⟨_, given, rfl⟩ := read
      cases given
      exact .nil
  | .arr items, _, _, read => by
      obtain ⟨less, values, rfl, itemsRead⟩ := read.of_arr
      exact literalNumbersOf_of_isReadAs items itemsRead
  | .obj _, _, _, read => by
      obtain ⟨less, values, rfl, _⟩ := read.of_obj
      exact .nil

theorem literalNumbersOf_of_isReadAs : ∀ (items : List Written) {room : Nat}
    {values : List Json},
    List.Forall₂ (fun item value => item.IsReadAs room value) items values →
      List.Forall₂ Numeral.IsReadAs (literalNumeralsOf items) (literalNumbersOf values)
  | [], _, _, .nil => .nil
  | item :: rest, _, _, .cons itemRead restRead =>
      List.rel_append (literalNumbers_of_isReadAs item itemRead)
        (literalNumbersOf_of_isReadAs rest restRead)

end

theorem argumentNumbers_of_isReadAs
    {room : Nat}
    {written : Written}
    {value : Json}
    (read : written.IsReadAs room value) :
    List.Forall₂ Numeral.IsReadAs written.argumentNumerals value.argumentNumbers := by
  cases written with
  | obj fields =>
      obtain ⟨less, values, rfl, found⟩ := read.of_obj
      have literal := found "literal"
      rw [argumentNumerals, argumentNumbers]
      generalize lastOf? "literal" fields = left at literal ⊢
      generalize fieldOf? "literal" values = right at literal ⊢
      cases literal with
      | none => exact .nil
      | some inner => exact literalNumbers_of_isReadAs _ inner
  | number numeral =>
      obtain ⟨_, ⟨int, rfl⟩ | ⟨float, rfl⟩⟩ := read.of_number <;> exact .nil
  | arr items =>
      obtain ⟨less, values, rfl, _⟩ := read.of_arr
      exact .nil
  | _ =>
      obtain ⟨_, given, rfl⟩ := read
      cases given
      exact .nil

theorem operandNumbers_of_isReadAs
    {room : Nat}
    {written : Written}
    {value : Json}
    (read : written.IsReadAs room value) :
    List.Forall₂ Numeral.IsReadAs written.operandNumerals value.operandNumbers := by
  cases written with
  | obj fields =>
      obtain ⟨less, values, rfl, found⟩ := read.of_obj
      have arguments := found "args"
      rw [operandNumerals, operandNumbers]
      generalize lastOf? "args" fields = left at arguments ⊢
      generalize fieldOf? "args" values = right at arguments ⊢
      cases arguments with
      | none => exact .nil
      | @some inner other innerRead =>
          cases inner with
          | arr items =>
              obtain ⟨less, values, rfl, itemsRead⟩ := innerRead.of_arr
              exact List.rel_flatMap itemsRead fun _ _ => argumentNumbers_of_isReadAs
          | number numeral =>
              obtain ⟨_, ⟨int, rfl⟩ | ⟨float, rfl⟩⟩ := innerRead.of_number <;> exact .nil
          | obj fields =>
              obtain ⟨less, values, rfl, _⟩ := innerRead.of_obj
              exact .nil
          | _ =>
              obtain ⟨_, given, rfl⟩ := innerRead
              cases given
              exact .nil
  | number numeral =>
      have numbers := literalNumbers_of_isReadAs _ read
      obtain ⟨_, ⟨int, rfl⟩ | ⟨float, rfl⟩⟩ := read.of_number <;> exact numbers
  | arr items =>
      have numbers := literalNumbers_of_isReadAs _ read
      obtain ⟨less, values, rfl, _⟩ := read.of_arr
      exact numbers
  | _ =>
      obtain ⟨_, given, rfl⟩ := read
      cases given
      exact .nil

theorem itemNumbers_of_isReadAs
    {room : Nat}
    {written : Written}
    {value : Json}
    (read : written.IsReadAs room value) :
    List.Forall₂ Numeral.IsReadAs written.itemNumerals value.itemNumbers := by
  cases written with
  | arr items =>
      obtain ⟨less, values, rfl, itemsRead⟩ := read.of_arr
      match items, values, itemsRead with
      | [], _, .nil => exact .nil
      | [_], _, .cons _ .nil => exact .nil
      | [_, _], _, .cons _ (.cons _ .nil) => exact .nil
      | [_, _, _], _, .cons _ (.cons _ (.cons operandRead .nil)) =>
          exact operandNumbers_of_isReadAs operandRead
      | _ :: _ :: _ :: _ :: _, _, .cons _ (.cons _ (.cons _ (.cons _ _))) => exact .nil
  | number numeral =>
      obtain ⟨_, ⟨int, rfl⟩ | ⟨float, rfl⟩⟩ := read.of_number <;> exact .nil
  | obj fields =>
      obtain ⟨less, values, rfl, _⟩ := read.of_obj
      exact .nil
  | _ =>
      obtain ⟨_, given, rfl⟩ := read
      cases given
      exact .nil

/-- The numbers that stand as literals come from the numerals that do, in order. -/
theorem domainNumbers_of_isReadAs
    {room : Nat}
    {written : Written}
    {value : Json}
    (read : written.IsReadAs room value) :
    List.Forall₂ Numeral.IsReadAs written.domainNumerals value.domainNumbers := by
  cases written with
  | arr items =>
      obtain ⟨less, values, rfl, itemsRead⟩ := read.of_arr
      exact List.rel_flatMap itemsRead fun _ _ => itemNumbers_of_isReadAs
  | number numeral =>
      obtain ⟨_, ⟨int, rfl⟩ | ⟨float, rfl⟩⟩ := read.of_number <;> exact .nil
  | obj fields =>
      obtain ⟨less, values, rfl, _⟩ := read.of_obj
      exact .nil
  | _ =>
      obtain ⟨_, given, rfl⟩ := read
      cases given
      exact .nil

end Written

end Json

/-! ## From numbers to literals -/

mutual

/-- The numbers in a literal, in order. -/
def Literal.numbers : Literal → List Literal
  | .int value => [.int value]
  | .float value => [.float value]
  | .list items => Literal.numbersOf items
  | _ => []

/-- The numbers in literals, in order. -/
def Literal.numbersOf : List Literal → List Literal
  | [] => []
  | item :: rest => Literal.numbers item ++ Literal.numbersOf rest

end

/-- The numbers in an argument. -/
def Argument.numbers : Argument → List Literal
  | .field _ => []
  | .literal value => value.numbers

/-- The numbers in an operand. -/
def Operand.numbers : Operand → List Literal
  | .literal value => value.numbers
  | .field _ => []
  | .call function => function.arguments.flatMap Argument.numbers

/-- The numbers in an item of a domain. -/
def Item.numbers : Item → List Literal
  | .condition inner => inner.operand.numbers
  | .marker _ => []

/-- The numbers in a domain, in order. -/
def Domain.numbers (domain : Domain) : List Literal :=
  domain.flatMap Item.numbers

/-- The literal that a number is decoded to. -/
def Json.DecodesTo
    (number : Json)
    (literal : Literal) : Prop :=
  Literal.ofJson number = .ok literal

mutual

theorem Literal.numbers_of_ofJson : ∀ (json : Json) {literal : Literal},
    Literal.ofJson json = .ok literal →
      List.Forall₂ Json.DecodesTo json.literalNumbers literal.numbers
  | .null, _, decoded => by cases decoded; exact .nil
  | .bool _, _, decoded => by cases decoded; exact .nil
  | .int value, _, decoded => by
      have given := decoded
      rw [Literal.ofJson] at given
      split at given
      · cases given
        exact .cons decoded .nil
      · cases given
  | .float _, _, decoded => by cases decoded; exact .cons rfl .nil
  | .str _, _, decoded => by cases decoded; exact .nil
  | .arr items, _, decoded => by
      obtain ⟨literals, itemsDecoded, decoded⟩ := bind_eq_ok_iff.mp decoded
      cases decoded
      exact Literal.numbersOf_of_ofJsonItems items itemsDecoded
  | .obj _, _, decoded => by cases decoded

theorem Literal.numbersOf_of_ofJsonItems : ∀ (items : List Json) {literals : List Literal},
    Literal.ofJsonItems items = .ok literals →
      List.Forall₂ Json.DecodesTo (Json.literalNumbersOf items) (Literal.numbersOf literals)
  | [], _, decoded => by cases decoded; exact .nil
  | item :: rest, _, decoded => by
      obtain ⟨first, firstDecoded, decoded⟩ := bind_eq_ok_iff.mp decoded
      obtain ⟨others, restDecoded, decoded⟩ := bind_eq_ok_iff.mp decoded
      cases decoded
      exact List.rel_append (Literal.numbers_of_ofJson item firstDecoded)
        (Literal.numbersOf_of_ofJsonItems rest restDecoded)

end

theorem Argument.numbers_of_ofJson
    {json : Json}
    {argument : Argument}
    (decoded : Argument.ofJson json = .ok argument) :
    List.Forall₂ Json.DecodesTo json.argumentNumbers argument.numbers := by
  unfold Argument.ofJson at decoded
  split at decoded
  · cases decoded
    exact .nil
  · obtain ⟨literal, literalDecoded, decoded⟩ := bind_eq_ok_iff.mp decoded
    cases decoded
    exact Literal.numbers_of_ofJson _ literalDecoded
  · cases decoded

theorem FunctionCall.numbers_of_ofFields
    {fields : List (String × Json)}
    {call : FunctionCall}
    (decoded : FunctionCall.ofFields fields = .ok call) :
    List.Forall₂ Json.DecodesTo (Json.obj fields).operandNumbers
      (call.arguments.flatMap Argument.numbers) := by
  obtain ⟨name, _, _, ⟨noArguments, empty⟩ | ⟨values, found, argumentsDecoded⟩⟩ :=
    FunctionCall.ofFields_eq_ok_iff.mp decoded
  · rw [Json.operandNumbers, noArguments, empty]
    exact .nil
  · rw [Json.operandNumbers, found]
    exact List.rel_flatMap (mapM_eq_ok_iff.mp argumentsDecoded)
      fun _ _ => Argument.numbers_of_ofJson

theorem Operand.numbers_of_ofJson
    {json : Json}
    {operand : Operand}
    (decoded : Operand.ofJson json = .ok operand) :
    List.Forall₂ Json.DecodesTo json.operandNumbers operand.numbers := by
  cases json with
  | obj fields =>
      rcases Operand.ofJson_obj_eq_ok_iff.mp decoded with
        ⟨path, rfl, rfl⟩ | ⟨_, call, callDecoded, rfl⟩
      · exact .nil
      · exact FunctionCall.numbers_of_ofFields callDecoded
  | _ =>
      obtain ⟨literal, literalDecoded, decoded⟩ := bind_eq_ok_iff.mp decoded
      cases decoded
      exact Literal.numbers_of_ofJson _ literalDecoded

theorem Item.numbers_of_ofJson
    {json : Json}
    {item : Item}
    (decoded : Item.ofJson json = .ok item) :
    List.Forall₂ Json.DecodesTo json.itemNumbers item.numbers := by
  unfold Item.ofJson at decoded
  split at decoded
  · cases decoded
    exact .nil
  · obtain ⟨condition, conditionDecoded, decoded⟩ := bind_eq_ok_iff.mp decoded
    cases decoded
    obtain ⟨operand, rfl, operandDecoded⟩ :=
      Condition.ofElements_eq_ok_iff.mp conditionDecoded
    exact Operand.numbers_of_ofJson operandDecoded
  · cases decoded

theorem Domain.numbers_of_ofJson
    {json : Json}
    {domain : Domain}
    (decoded : Domain.ofJson json = .ok domain) :
    List.Forall₂ Json.DecodesTo json.domainNumbers domain.numbers := by
  unfold Domain.ofJson at decoded
  split at decoded
  · exact List.rel_flatMap (mapM_eq_ok_iff.mp decoded) fun _ _ => Item.numbers_of_ofJson
  · cases decoded

end DomainSql
