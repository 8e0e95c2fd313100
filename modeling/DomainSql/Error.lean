import DomainSql.Domain.FunctionName
import DomainSql.Domain.Marker
import DomainSql.Json.Reader
import DomainSql.Json.Writer
import DomainSql.Sql.Dialect

/-!
# Errors

Every error is a cause: what was wrong, and where. The wording of each cause is
given once, by the functions `message`. A JSON value inside a message is written
in compact form.
-/

namespace DomainSql

/-- Why a domain, a path or an order is refused. -/
inductive ExpressionError
  | notJson (fault : Json.Fault)
  | notArray
  | notItem (found : Json)
  | conditionLength (length : Nat)
  | fieldNotText (found : Json)
  | operatorNotText (found : Json)
  | notFieldReference (found : Json)
  | functionNotText
  | unknownFunction (name : String)
  | argumentsNotArray (found : Json)
  | notArgument (found : Json)
  | integerTooLarge (value : Int)
  | objectLiteral (found : Json)
  | unknownMarker (marker : String) (position : Nat)
  | missingOperands (marker : Marker) (position found : Nat)
  | negationWithoutRule (position : Nat)
  | missingRules (marker : Marker) (position : Nat)
  | malformedHop (hop : String)
  | unknownJoinCode (code hop : String)
  | namelessHop (hop : String)
  | alreadyJoined (key : String)
  | emptyPath
  | noColumn (field : String)
  | argumentCount (function : FunctionName) (count : Nat)
  | notOrder (item : String)

namespace ExpressionError

/-- The cause in words. -/
def cause : ExpressionError → String
  | .notJson fault => "domain is not valid JSON: " ++ fault.message
  | .notArray => "domain must be a JSON array"
  | .notItem found =>
      "expected a condition or an operator, found " ++ found.compact
  | .conditionLength length =>
      "a condition has 3 elements, found " ++ Nat.repr length
  | .fieldNotText found =>
      "condition field must be a string, found " ++ found.compact
  | .operatorNotText found =>
      "condition operator must be a string, found " ++ found.compact
  | .notFieldReference found =>
      "a field reference is \x7b\"field\": \"name\"\x7d, found " ++ found.compact
  | .functionNotText => "function name must be a string"
  | .unknownFunction name => "unknown function `" ++ name ++ "`"
  | .argumentsNotArray found =>
      "function args must be an array, found " ++ found.compact
  | .notArgument found =>
      "function arguments are field names or \x7b\"literal\": value\x7d, found "
        ++ found.compact
  | .integerTooLarge value =>
      "integer " ++ String.ofList (Json.intChars value)
        ++ " does not fit in 64 signed bits"
  | .objectLiteral found =>
      "objects are not literal values: " ++ found.compact
  | .unknownMarker marker position =>
      "unknown operator `" ++ marker ++ "` at position " ++ Nat.repr position
  | .missingOperands marker position found =>
      "operator `" ++ marker.text ++ "` at position " ++ Nat.repr position
        ++ " needs " ++ Nat.repr marker.arity ++ " operands, found "
        ++ Nat.repr found
  | .negationWithoutRule position =>
      "`!` at position " ++ Nat.repr position ++ " has no rule-tree form"
  | .missingRules marker position =>
      "operator `" ++ marker.text ++ "` at position " ++ Nat.repr position
        ++ " needs two operands"
  | .malformedHop hop => "malformed join annotation in `" ++ hop ++ "`"
  | .unknownJoinCode code hop =>
      "unknown join type `" ++ code ++ "` in `" ++ hop ++ "`"
  | .namelessHop hop => "empty relation name in `" ++ hop ++ "`"
  | .alreadyJoined key => "`" ++ key ++ "` is already joined in this session"
  | .emptyPath => "empty relation path"
  | .noColumn field => "`" ++ field ++ "` does not end in a column name"
  | .argumentCount function count =>
      function.text ++ "() does not take " ++ Nat.repr count ++ " arguments"
  | .notOrder item => "cannot order by `" ++ item ++ "`"

/-- The message of an error. -/
def message (error : ExpressionError) : String :=
  "invalid expression: " ++ error.cause

end ExpressionError

/-- Why a rule tree is refused. -/
inductive RuleError
  | notJson (fault : Json.Fault)
  | notObject (found : Json)
  | missing (key : String)
  | unknownCombinator (found : Json)
  | value (field : String) (error : ExpressionError)

namespace RuleError

/-- The message of an error. -/
def message : RuleError → String
  | .notJson fault =>
      "invalid rule: rule tree is not valid JSON: " ++ fault.message
  | .notObject found =>
      "invalid rule: expected an object, found " ++ found.compact
  | .missing key => "invalid rule: missing field `" ++ key ++ "`"
  | .unknownCombinator found =>
      "invalid rule: unknown combinator " ++ found.compact
  | .value field error =>
      "invalid rule: rule `" ++ field ++ "`: " ++ error.message

end RuleError

/-- Why a settings file is refused. -/
inductive SettingsError
  | notFound (path : String)
  | notText (path : String)
  | notSettings (path : String) (fault : Json.Fault)
  deriving DecidableEq

namespace SettingsError

/-- The message of an error. -/
def message : SettingsError → String
  | .notFound path => "配置文件不存在: " ++ path
  | .notText path =>
      "无法读取配置文件 " ++ path ++ ": stream did not contain valid UTF-8"
  | .notSettings path fault =>
      "无法解析JSON配置文件 " ++ path ++ ": " ++ fault.message

end SettingsError

/-- Why an operation of the library fails. -/
inductive Error
  | expression (error : ExpressionError)
  | unsupportedOperator (token : String)
  | unresolvedRelation (table field : String)
  | unsupportedJoin (kind : JoinKind) (dialect : Dialect)
  | rule (error : RuleError)
  | settings (error : SettingsError)

namespace Error

/-- The message of an error. -/
def message : Error → String
  | .expression error => error.message
  | .unsupportedOperator token => "operator " ++ token ++ " is not supported"
  | .unresolvedRelation table field =>
      "no relation `" ++ field ++ "` on table `" ++ table ++ "`"
  | .unsupportedJoin kind dialect =>
      "join `" ++ kind.code ++ "` is not supported by " ++ dialect.text
  | .rule error => error.message
  | .settings error => error.message

end Error

end DomainSql
