import DomainSql.RuleTree.Basic
import DomainSql.Text.Blank

/-!
# The operator words of rule trees

Rules and conditions name some operators differently. An operator outside the
tables has one word in both.
-/

namespace DomainSql

/-- Look a word up in a table of words. -/
def renamed
    (table : List (String × String))
    (word : String) : String :=
  match table.find? fun entry => entry.1 == word with
  | some entry => entry.2
  | none => word

namespace Rule

/-- The words of rules for the words of conditions. -/
def ruleWords : List (String × String) :=
  [("<>", "!="),
    ("=like", "like"),
    ("ilike", "contains"),
    ("=ilike", "contains"),
    ("not ilike", "!contains"),
    ("not in", "!in")]

/-- The words of conditions for the words of rules. -/
def conditionWords : List (String × String) :=
  [("contains", "ilike"),
    ("!contains", "not ilike"),
    ("!in", "not in")]

/-- The rule of a condition. -/
def ofCondition (condition : Condition) : Rule where
  field := condition.field
  operator := renamed ruleWords condition.operator
  operand := condition.operand

/-- The texts between the commas of a text, without blanks at their ends. -/
def commaList (text : String) : Literal :=
  .list ((Text.split ',' text).map fun part => .text (Text.trim part))

/-- The operand of a membership test: a text stands for the list of its parts
between commas. -/
def membershipOperand : Operand → Operand
  | .literal (.text text) => .literal (commaList text)
  | other => other

/-- The condition of a rule. -/
def toCondition (rule : Rule) : Condition :=
  let operator := renamed conditionWords rule.operator
  {
    field := rule.field
    operator := operator
    operand :=
      if operator = "in" ∨ operator = "not in" then
        membershipOperand rule.operand
      else rule.operand
  }

end Rule
end DomainSql
