/-!
# Comparison operators

The operator between the field and the value of a condition is written as a
token. Several tokens may name one operator; each operator has one canonical
token.
-/

namespace DomainSql

/-- A comparison between a column and a value. -/
inductive Comparison
  | equal
  | notEqual
  | less
  | lessOrEqual
  | greater
  | greaterOrEqual
  | like
  | notLike
  | ilike
  | notIlike
  | within
  | notWithin
  deriving DecidableEq

namespace Comparison

/-- Every token with the operator that it names. -/
def tokens : List (String × Comparison) :=
  [("=", .equal),
    ("!=", .notEqual),
    ("<>", .notEqual),
    ("<", .less),
    ("<=", .lessOrEqual),
    (">", .greater),
    (">=", .greaterOrEqual),
    ("like", .like),
    ("=like", .like),
    ("not like", .notLike),
    ("ilike", .ilike),
    ("=ilike", .ilike),
    ("not ilike", .notIlike),
    ("in", .within),
    ("not in", .notWithin)]

/-- The operator that a token names. -/
def ofToken? (token : String) : Option Comparison :=
  (tokens.find? fun entry => entry.1 == token).map Prod.snd

/-- The canonical token of an operator. -/
def token : Comparison → String
  | .equal => "="
  | .notEqual => "!="
  | .less => "<"
  | .lessOrEqual => "<="
  | .greater => ">"
  | .greaterOrEqual => ">="
  | .like => "like"
  | .notLike => "not like"
  | .ilike => "ilike"
  | .notIlike => "not ilike"
  | .within => "in"
  | .notWithin => "not in"

/-- Whether an operator tests membership in a list. -/
def isMembership : Comparison → Bool
  | .within => true
  | .notWithin => true
  | _ => false

/-- The canonical token of an operator names it. -/
@[simp] theorem ofToken?_token (comparison : Comparison) :
    ofToken? comparison.token = some comparison := by
  cases comparison <;> rfl

end Comparison
end DomainSql
