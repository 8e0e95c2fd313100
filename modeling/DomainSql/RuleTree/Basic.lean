import DomainSql.Domain.Basic

/-!
# Rule trees

A rule tree is the nested form of a filter: queries that combine their members by
one combinator, down to single rules. The constructor `spliced` takes the members
of a member with its own combinator in its place. `optimize` does so at every
level and drops a query whose only member is a query.
-/

namespace DomainSql

/-- How a query combines its members. -/
inductive Combinator
  | and
  | or
  deriving DecidableEq

namespace Combinator

/-- The name of a combinator. -/
def text : Combinator → String
  | .and => "and"
  | .or => "or"

/-- The combinator with this name, in any case of its ASCII letters. -/
def ofText? (name : String) : Option Combinator :=
  let lowered := FunctionName.lowered name
  if lowered = "and" then some .and
  else if lowered = "or" then some .or
  else none

/-- The truth value of two members together. -/
def apply : Combinator → Bool → Bool → Bool
  | .and => (· && ·)
  | .or => (· || ·)

/-- The truth value of no members. -/
def neutral : Combinator → Bool
  | .and => true
  | .or => false

@[simp] theorem apply_neutral
    (combinator : Combinator)
    (value : Bool) :
    combinator.apply value combinator.neutral = value := by
  cases combinator <;> cases value <;> rfl

@[simp] theorem neutral_apply
    (combinator : Combinator)
    (value : Bool) :
    combinator.apply combinator.neutral value = value := by
  cases combinator <;> rfl

@[simp] theorem apply_self
    (combinator : Combinator)
    (value : Bool) :
    combinator.apply value value = value := by
  cases combinator <;> cases value <;> rfl

theorem apply_assoc
    (combinator : Combinator)
    (first second third : Bool) :
    combinator.apply (combinator.apply first second) third =
      combinator.apply first (combinator.apply second third) := by
  cases combinator <;> cases first <;> rfl

end Combinator

/-- A comparison of a field with an operand, in the words of rule trees. -/
structure Rule where
  field : String
  operator : String
  operand : Operand
  deriving DecidableEq

/-- A nested filter. -/
inductive RuleTree
  | rule (inner : Rule)
  | query (combinator : Combinator) (members : List RuleTree)

namespace RuleTree

mutual

/-- Rule trees are compared by their structure. -/
def decideEq : (left right : RuleTree) → Decidable (left = right)
  | .rule left, .rule right => decidable_of_iff (left = right) (by simp)
  | .rule _, .query _ _ => isFalse nofun
  | .query _ _, .rule _ => isFalse nofun
  | .query leftCombinator left, .query rightCombinator right =>
      have := decideEqMembers left right
      decidable_of_iff (leftCombinator = rightCombinator ∧ left = right)
        (by simp)

/-- Lists of rule trees are compared member by member. -/
def decideEqMembers : (left right : List RuleTree) → Decidable (left = right)
  | [], [] => isTrue rfl
  | [], _ :: _ => isFalse nofun
  | _ :: _, [] => isFalse nofun
  | left :: lefts, right :: rights =>
      have := decideEq left right
      have := decideEqMembers lefts rights
      decidable_of_iff (left = right ∧ lefts = rights) (by simp)

end

instance : DecidableEq RuleTree := decideEq

/-- What holds of every rule, and of a query if it holds of its members, holds of every
tree. -/
@[elab_as_elim]
theorem memberInduction
    {motive : RuleTree → Prop}
    (rule : ∀ inner, motive (.rule inner))
    (query : ∀ combinator members,
      (∀ member ∈ members, motive member) → motive (.query combinator members))
    (tree : RuleTree) : motive tree :=
  @RuleTree.rec motive (fun members => ∀ member ∈ members, motive member)
    rule query nofun
    (fun _ _ first rest => List.forall_mem_cons.mpr ⟨first, rest⟩) tree

/-- The query without members. -/
def empty : RuleTree := .query .and []

/-- Whether a tree is a query. -/
def isQuery : RuleTree → Bool
  | .query _ _ => true
  | .rule _ => false

/-- Whether a tree is a query with this combinator. -/
def combinesBy
    (combinator : Combinator) : RuleTree → Bool
  | .query other _ => other == combinator
  | .rule _ => false

/-- The members of a query with this combinator, or the tree itself. -/
def partsBy
    (combinator : Combinator) : RuleTree → List RuleTree
  | .query other members =>
      if other = combinator then members else [.query other members]
  | .rule inner => [.rule inner]

/-- The query of trees, with the members of queries with the same combinator in
their place. -/
def spliced
    (combinator : Combinator)
    (trees : List RuleTree) : RuleTree :=
  .query combinator (trees.flatMap (partsBy combinator))

mutual

/-- Drop every query whose only member is a query, and splice all others. -/
def optimize : RuleTree → RuleTree
  | .rule inner => .rule inner
  | .query combinator members =>
      match optimizeAll members with
      | [.query inner nested] => .query inner nested
      | optimized => spliced combinator optimized

/-- Optimize each of the trees. -/
def optimizeAll : List RuleTree → List RuleTree
  | [] => []
  | member :: rest => member.optimize :: optimizeAll rest

end

mutual

/-- Whether no query has a query with its own combinator for a member. -/
def isFlat : RuleTree → Bool
  | .rule _ => true
  | .query combinator members =>
      members.all (!·.combinesBy combinator) && areFlat members

/-- Whether each of the trees is flat. -/
def areFlat : List RuleTree → Bool
  | [] => true
  | member :: rest => member.isFlat && areFlat rest

end

mutual

/-- The rules from left to right. -/
def rules : RuleTree → List Rule
  | .rule inner => [inner]
  | .query _ members => rulesOf members

/-- The rules of trees from left to right. -/
def rulesOf : List RuleTree → List Rule
  | [] => []
  | member :: rest => member.rules ++ rulesOf rest

end

mutual

/-- The truth value of a tree under truth values of its rules. The query without
members is true for "and" and false for "or". -/
def eval (truth : Rule → Bool) : RuleTree → Bool
  | .rule inner => truth inner
  | .query .and members => evalAll truth members
  | .query .or members => evalAny truth members

/-- Whether all of the trees are true. -/
def evalAll (truth : Rule → Bool) : List RuleTree → Bool
  | [] => true
  | member :: rest => member.eval truth && evalAll truth rest

/-- Whether one of the trees is true. -/
def evalAny (truth : Rule → Bool) : List RuleTree → Bool
  | [] => false
  | member :: rest => member.eval truth || evalAny truth rest

end

end RuleTree
end DomainSql
