/-!
# Function names

The functions that may stand on the right of a condition and in the columns of a
query. Their names are read without regard to the case of ASCII letters.
-/

namespace DomainSql

/-- A function of a query. -/
inductive FunctionName
  | coalesce
  | greatest
  | least
  | concat
  | max
  | min
  | sum
  | avg
  | count
  deriving DecidableEq

namespace FunctionName

/-- The name of a function, in lower case. -/
def text : FunctionName → String
  | .coalesce => "coalesce"
  | .greatest => "greatest"
  | .least => "least"
  | .concat => "concat"
  | .max => "max"
  | .min => "min"
  | .sum => "sum"
  | .avg => "avg"
  | .count => "count"

/-- Every function. -/
def all : List FunctionName :=
  [.coalesce, .greatest, .least, .concat, .max, .min, .sum, .avg, .count]

/-- A text with its ASCII capitals in lower case. -/
def lowered (text : String) : String :=
  String.ofList (text.toList.map Char.toLower)

/-- The function with this name, in any case of its ASCII letters. -/
def ofText? (name : String) : Option FunctionName :=
  all.find? fun function => function.text == lowered name

/-- Whether a function takes exactly one argument, or for a count at most one. -/
def isAggregate : FunctionName → Bool
  | .max => true
  | .min => true
  | .sum => true
  | .avg => true
  | .count => true
  | _ => false

/-- Whether a function can be called with this number of arguments. -/
def takes
    (function : FunctionName)
    (count : Nat) : Bool :=
  match function with
  | .count => count ≤ 1
  | other => if other.isAggregate then count == 1 else 1 ≤ count

@[simp] theorem ofText?_text (function : FunctionName) :
    ofText? function.text = some function := by
  cases function <;> decide +kernel

end FunctionName
end DomainSql
