import DomainSql.Error

/-!
# Literal values

A literal is the value that a condition compares with, or an argument of a
function. Every JSON value without objects is one, as long as its integers fit
into sixty-four bits with sign.
-/

namespace DomainSql

/-- A value written out in a domain. -/
inductive Literal
  | null
  | bool (value : Bool)
  | int (value : Int64)
  | float (value : Binary64)
  | text (value : String)
  | list (items : List Literal)

namespace Literal

mutual

/-- Literals are compared by their structure. -/
def decideEq : (left right : Literal) → Decidable (left = right)
  | .null, right =>
      match right with
      | .null => isTrue rfl
      | .bool _ | .int _ | .float _ | .text _ | .list _ => isFalse nofun
  | .bool left, right =>
      match right with
      | .bool right => decidable_of_iff (left = right) (by simp)
      | .null | .int _ | .float _ | .text _ | .list _ => isFalse nofun
  | .int left, right =>
      match right with
      | .int right => decidable_of_iff (left = right) (by simp)
      | .null | .bool _ | .float _ | .text _ | .list _ => isFalse nofun
  | .float left, right =>
      match right with
      | .float right => decidable_of_iff (left = right) (by simp)
      | .null | .bool _ | .int _ | .text _ | .list _ => isFalse nofun
  | .text left, right =>
      match right with
      | .text right => decidable_of_iff (left = right) (by simp)
      | .null | .bool _ | .int _ | .float _ | .list _ => isFalse nofun
  | .list left, right =>
      match right with
      | .list right =>
          have := decideEqItems left right
          decidable_of_iff (left = right) (by simp)
      | .null | .bool _ | .int _ | .float _ | .text _ => isFalse nofun

/-- Lists of literals are compared item by item. -/
def decideEqItems : (left right : List Literal) → Decidable (left = right)
  | [], [] => isTrue rfl
  | [], _ :: _ => isFalse nofun
  | _ :: _, [] => isFalse nofun
  | left :: lefts, right :: rights =>
      have := decideEq left right
      have := decideEqItems lefts rights
      decidable_of_iff (left = right ∧ lefts = rights) (by simp)

end

instance : DecidableEq Literal := decideEq

/-- Whether an integer fits into sixty-four bits with sign. -/
def fits (value : Int) : Prop :=
  Int64.minValue.toInt ≤ value ∧ value ≤ Int64.maxValue.toInt

instance (value : Int) : Decidable (fits value) :=
  inferInstanceAs (Decidable (_ ∧ _))

mutual

/-- The literal that a JSON value stands for. -/
def ofJson : Json → Except ExpressionError Literal
  | .null => .ok .null
  | .bool value => .ok (.bool value)
  | .int value =>
      if fits value then .ok (.int (Int64.ofInt value))
      else .error (.integerTooLarge value)
  | .float value => .ok (.float value)
  | .str value => .ok (.text value)
  | .arr items => do
      let items ← ofJsonItems items
      pure (.list items)
  | .obj fields => .error (.objectLiteral (.obj fields))

/-- The literals that JSON values stand for, up to the first that is none. -/
def ofJsonItems : List Json → Except ExpressionError (List Literal)
  | [] => .ok []
  | item :: rest => do
      let item ← ofJson item
      let rest ← ofJsonItems rest
      pure (item :: rest)

end

mutual

/-- The JSON value of a literal. JSON has no number that is not finite, so such a
number becomes null. -/
def toJson : Literal → Json
  | .null => .null
  | .bool value => .bool value
  | .int value => .int value.toInt
  | .float value => if value.isFinite then .float value else .null
  | .text value => .str value
  | .list items => .arr (toJsonItems items)

/-- The JSON values of literals. -/
def toJsonItems : List Literal → List Json
  | [] => []
  | item :: rest => item.toJson :: toJsonItems rest

end

end Literal
end DomainSql
