/-!
# Kinds of joins

A hop of a path may name the kind of its join by a code in parentheses. Several
kinds have one form in SQL, which has no separate outer variants.
-/

namespace DomainSql

/-- The form of a join in SQL. -/
inductive JoinForm
  | inner
  | left
  | right
  | fullOuter
  | cross
  deriving DecidableEq

/-- The kind of a join. -/
inductive JoinKind
  | inner
  | left
  | leftOuter
  | right
  | rightOuter
  | full
  | fullOuter
  | cross
  deriving DecidableEq

namespace JoinKind

/-- The code of a kind. -/
def code : JoinKind → String
  | .inner => "I"
  | .left => "L"
  | .leftOuter => "LO"
  | .right => "R"
  | .rightOuter => "RO"
  | .full => "F"
  | .fullOuter => "FO"
  | .cross => "C"

/-- Every kind. -/
def all : List JoinKind :=
  [.inner, .left, .leftOuter, .right, .rightOuter, .full, .fullOuter, .cross]

/-- The kind with this code. -/
def ofCode? (code : String) : Option JoinKind :=
  all.find? fun kind => kind.code == code

/-- The name of a kind. -/
def name : JoinKind → String
  | .inner => "Inner"
  | .left => "Left"
  | .leftOuter => "LeftOuter"
  | .right => "Right"
  | .rightOuter => "RightOuter"
  | .full => "Full"
  | .fullOuter => "FullOuter"
  | .cross => "Cross"

/-- The form of a kind in SQL. -/
def form : JoinKind → JoinForm
  | .inner => .inner
  | .left => .left
  | .leftOuter => .left
  | .right => .right
  | .rightOuter => .right
  | .full => .fullOuter
  | .fullOuter => .fullOuter
  | .cross => .cross

@[simp] theorem ofCode?_code (kind : JoinKind) :
    ofCode? kind.code = some kind := by
  cases kind <;> rfl

end JoinKind
end DomainSql
