import DomainSql.Decimal.Binary64

/-!
# JSON values

A value keeps the fields of an object as they were written, in order and with
repetitions. The canonical form of a value sorts the fields of every object by
key and keeps the last of the fields with one key.
-/

namespace DomainSql

/-- A JSON value. A number without fraction and exponent is an integer, any other
number is a floating-point number. -/
inductive Json
  | null
  | bool (value : Bool)
  | int (value : Int)
  | float (value : Binary64)
  | str (value : String)
  | arr (items : List Json)
  | obj (fields : List (String × Json))

namespace Json

instance : Inhabited Json := ⟨.null⟩

/-- Put a field into a list that is sorted by key, in place of a field with the
same key. -/
def insertField
    (key : String)
    (value : Json) : List (String × Json) → List (String × Json)
  | [] => [(key, value)]
  | field :: rest =>
      if key < field.1 then (key, value) :: field :: rest
      else if key = field.1 then (key, value) :: rest
      else field :: insertField key value rest

/-- Sort fields by key. Of the fields with one key the last one stays. -/
def sortFields (fields : List (String × Json)) : List (String × Json) :=
  fields.foldl (fun sorted field => insertField field.1 field.2 sorted) []

mutual

/-- The same value with the fields of every object sorted by key and the last
one of each key kept. -/
def canonical : Json → Json
  | .null => .null
  | .bool value => .bool value
  | .int value => .int value
  | .float value => .float value
  | .str value => .str value
  | .arr items => .arr (canonicalItems items)
  | .obj fields => .obj (sortFields (canonicalFields fields))

/-- The items in canonical form. -/
def canonicalItems : List Json → List Json
  | [] => []
  | item :: rest => item.canonical :: canonicalItems rest

/-- The fields, in order, with their values in canonical form. -/
def canonicalFields : List (String × Json) → List (String × Json)
  | [] => []
  | (key, value) :: rest => (key, value.canonical) :: canonicalFields rest

end

/-- The fields of an object. -/
def fields? : Json → Option (List (String × Json))
  | .obj fields => some fields
  | _ => none

/-- The text of a string. -/
def text? : Json → Option String
  | .str text => some text
  | _ => none

/-- The value of the first field with this key. -/
def fieldOf?
    (key : String) : List (String × Json) → Option Json
  | [] => none
  | (name, value) :: rest =>
      if name = key then some value else fieldOf? key rest

/-- The value of an object's first field with this key. -/
def field?
    (key : String)
    (json : Json) : Option Json :=
  json.fields?.bind (fieldOf? key)

@[simp] theorem fieldOf?_nil (key : String) : fieldOf? key [] = none := rfl

@[simp] theorem fieldOf?_cons
    (key name : String)
    (value : Json)
    (rest : List (String × Json)) :
    fieldOf? key ((name, value) :: rest) =
      if name = key then some value else fieldOf? key rest := rfl

/-- A field that was put in is found. -/
@[simp] theorem fieldOf?_insertField
    (key : String)
    (value : Json)
    (fields : List (String × Json)) :
    fieldOf? key (insertField key value fields) = some value := by
  induction fields with
  | nil => simp [insertField]
  | cons field rest inductionHypothesis =>
      obtain ⟨name, other⟩ := field
      simp only [insertField]
      split
      · simp
      · split
        · simp
        · rename_i different
          simp [Ne.symm different, inductionHypothesis]

end Json
end DomainSql
