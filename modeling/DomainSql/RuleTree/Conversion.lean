import DomainSql.RuleTree.Vocabulary

/-!
# Rule trees and domains

A domain is read from its end to its start, as its formula is: a condition
becomes a rule, and a marker combines the two trees behind it. Rule trees have no
negation. The other way round, an "and" writes the domains of its members one
after the other, and an "or" of `k` members writes `k - 1` markers in front of
them.
-/

namespace DomainSql
namespace RuleTree

/-- The combinator of a marker that has one. -/
def combinatorOfMarker
    (text : String)
    (position : Nat) : Except ExpressionError Combinator :=
  match Marker.ofText? text with
  | some .and => .ok .and
  | some .or => .ok .or
  | some .not => .error (.negationWithoutRule position)
  | none => .error (.unknownMarker text position)

/-- The marker of a combinator. -/
def markerOf : Combinator → Marker
  | .and => .and
  | .or => .or

/-- The trees that the items from a position on leave, the leftmost first. -/
def treesOf :
    Nat → Domain → Except ExpressionError (List RuleTree)
  | _, [] => .ok []
  | position, item :: rest => do
      let trees ← treesOf (position + 1) rest
      match item with
      | .condition condition => pure (.rule (Rule.ofCondition condition) :: trees)
      | .marker text => do
          let combinator ← combinatorOfMarker text position
          match trees with
          | left :: right :: others =>
              pure (spliced combinator [left, right] :: others)
          | _ => throw (.missingRules (markerOf combinator) position)

/-- One query for all trees: a single query as it is, anything else under an
"and". -/
def gather : List RuleTree → RuleTree
  | [.query combinator members] => .query combinator members
  | trees => spliced .and trees

/-- The rule tree of a domain. -/
def ofDomain (domain : Domain) : Except ExpressionError RuleTree := do
  let trees ← treesOf 0 domain
  pure (gather trees).optimize

mutual

/-- The domain of a rule tree. -/
def toDomain : RuleTree → Domain
  | .rule inner => [.condition inner.toCondition]
  | .query .and members => toDomainOf members
  | .query .or members =>
      List.replicate (members.length - 1) (.marker Marker.or.text)
        ++ toDomainOf members

/-- The domains of rule trees, one after the other. -/
def toDomainOf : List RuleTree → Domain
  | [] => []
  | member :: rest => member.toDomain ++ toDomainOf rest

end

end RuleTree
end DomainSql
