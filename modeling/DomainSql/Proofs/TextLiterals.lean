import DomainSql.Proofs.BlankedTexts
import DomainSql.Proofs.StatementScanning
import DomainSql.Proofs.WhereClause

/-!
# Texts do not reach into the statement

The texts of a domain come to the statement as tokens, one for each text, and nothing
else in the statement depends on what they contain. Since the text of the statement is
split into just these tokens, whatever stands in a domain between quotes is between quotes
in the statement, and the names in the statement are those of tables, aliases and
columns. Between the quotes a dialect reads the text of the domain, as long as it has no
character that is not kept.
-/

namespace DomainSql
namespace Sql

/-! ## Tokens without their texts -/

/-- A token, emptied if it is a text. -/
def Token.blanked {Text : Type} : Token Text → Token
  | .text _ => .text ""
  | .word spelling => .word spelling
  | .symbol spelling => .symbol spelling
  | .number spelling => .number spelling
  | .name content => .name content
  | .space => .space

namespace Token

theorem map_blanked_spelled
    (setting : Bool)
    (dialect : Dialect)
    (tokens : List Token) :
    (tokens.map (spelled setting dialect)).map blanked = tokens.map blanked := by
  rw [List.map_map]
  refine List.map_congr_left fun token _ => ?_
  cases token <;> rfl

theorem map_blanked_listed :
    ∀ lists : List (List Token),
      (listed lists).map blanked = listed (lists.map (List.map blanked))
  | [] => rfl
  | [_] => rfl
  | first :: second :: rest => by
      have others := map_blanked_listed (second :: rest)
      simp only [List.map_cons] at others
      simp [listed, blanked, others]

theorem map_blanked_phrase :
    ∀ words : List String, (phrase words).map blanked = phrase words
  | [] => rfl
  | [_] => rfl
  | first :: second :: rest => by
      have others := map_blanked_phrase (second :: rest)
      simp [phrase, blanked, others]

theorem map_blanked_parenthesized (tokens : List Token) :
    (parenthesized tokens).map blanked = parenthesized (tokens.map blanked) := by
  simp [parenthesized, blanked]

end Token

mutual

theorem map_blanked_literalTokens :
    ∀ value : Literal, (literalTokens value).map Token.blanked =
      literalTokens value.blanked
  | .null => rfl
  | .bool true => rfl
  | .bool false => rfl
  | .int _ => by simp [literalTokens, Literal.blanked, Token.blanked]
  | .float _ => by simp [literalTokens, Literal.blanked, Token.blanked]
  | .text _ => by simp [literalTokens, Literal.blanked, Token.blanked]
  | .list items => by
      rw [literalTokens, Literal.blanked, literalTokens,
        Token.map_blanked_parenthesized, Token.map_blanked_listed,
        map_blanked_literalTokensOf items]

theorem map_blanked_literalTokensOf :
    ∀ items : List Literal, (literalTokensOf items).map (List.map Token.blanked) =
      literalTokensOf (Literal.blankedOf items)
  | [] => rfl
  | item :: rest => by
      rw [literalTokensOf, Literal.blankedOf, literalTokensOf, List.map_cons,
        map_blanked_literalTokens item, map_blanked_literalTokensOf rest]

end

namespace Term

mutual

/-- A term with its texts emptied. -/
def blanked : Term → Term
  | .column table name => .column table name
  | .everything => .everything
  | .literal value => .literal value.blanked
  | .call callee arguments => .call callee (blankedOf arguments)

/-- Terms with their texts emptied. -/
def blankedOf : List Term → List Term
  | [] => []
  | term :: rest => term.blanked :: blankedOf rest

end

theorem blankedOf_eq_map (terms : List Term) :
    blankedOf terms = terms.map blanked := by
  induction terms with
  | nil => rfl
  | cons term rest inductionHypothesis =>
      rw [blankedOf, inductionHypothesis, List.map_cons]

mutual

theorem map_blanked_tokens
    (dialect : Dialect) :
    ∀ term : Term, (term.tokens dialect).map Token.blanked =
      term.blanked.tokens dialect
  | .column _ _ => by simp [tokens, blanked, Token.blanked]
  | .everything => by simp [tokens, blanked, Token.blanked]
  | .literal value => by
      rw [tokens, blanked, tokens, map_blanked_literalTokens]
  | .call callee arguments => by
      rw [tokens, blanked, tokens, List.map_cons, Token.map_blanked_parenthesized,
        Token.map_blanked_listed, map_blanked_tokensOf dialect arguments]
      rfl

theorem map_blanked_tokensOf
    (dialect : Dialect) :
    ∀ terms : List Term, (tokensOf dialect terms).map (List.map Token.blanked) =
      tokensOf dialect (blankedOf terms)
  | [] => rfl
  | term :: rest => by
      rw [tokensOf, blankedOf, tokensOf, List.map_cons, map_blanked_tokens dialect term,
        map_blanked_tokensOf dialect rest]

end

@[simp] theorem blanked_ofColumn (column : Column) :
    (ofColumn column).blanked = ofColumn column := by
  rw [ofColumn, blanked]

theorem blanked_ofArgument (argument : BoundArgument) :
    (ofArgument argument).blanked = ofArgument argument.blanked := by
  cases argument with
  | column bound => exact blanked_ofColumn bound
  | literal value =>
      rw [ofArgument, blanked]
      rfl

theorem blanked_ofCall (call : BoundCall) :
    (ofCall call).blanked = ofCall call.blanked := by
  have each : (call.arguments.map ofArgument).map blanked =
      (call.arguments.map BoundArgument.blanked).map ofArgument := by
    simp [blanked_ofArgument]
  rw [ofCall, ofCall, blanked, blankedOf_eq_map]
  simp only [BoundCall.blanked, ← each]
  split
  · cases call.arguments.map ofArgument with
    | nil => simp [blanked]
    | cons first rest => simp
  · rfl

theorem blanked_ofOperand (operand : BoundOperand) :
    (ofOperand operand).blanked = ofOperand operand.blanked := by
  cases operand with
  | literal value =>
      rw [ofOperand, blanked]
      rfl
  | column bound => exact blanked_ofColumn bound
  | call function => exact blanked_ofCall function

end Term

namespace Predicate

/-- A predicate with its texts emptied. -/
def blanked : Predicate → Predicate
  | .compare left operator right => .compare left.blanked operator right.blanked
  | .member left negated items => .member left.blanked negated (items.map Term.blanked)
  | .isNull left negated => .isNull left.blanked negated

theorem isBare_blanked (predicate : Predicate) :
    predicate.blanked.isBare = predicate.isBare := by
  cases predicate with
  | compare left operator right => cases operator <;> rfl
  | member left negated items => rfl
  | isNull left negated => rfl

theorem map_blanked_tokens
    (dialect : Dialect)
    (predicate : Predicate) :
    (predicate.tokens dialect).map Token.blanked =
      predicate.blanked.tokens dialect := by
  cases predicate with
  | compare left operator right =>
      have operatorSame : operator.tokens.map Token.blanked = operator.tokens := by
        cases operator <;> rfl
      simp [tokens, blanked, Term.map_blanked_tokens, operatorSame, Token.blanked]
  | member left negated items =>
      cases items with
      | nil => rfl
      | cons item rest =>
          simp [tokens, blanked, Term.map_blanked_tokens, Token.blanked,
            Token.map_blanked_phrase, Token.map_blanked_parenthesized,
            Token.map_blanked_listed, Term.map_blanked_tokensOf, Term.blankedOf_eq_map]
  | isNull left negated =>
      simp [tokens, blanked, Term.map_blanked_tokens, Token.blanked,
        Token.map_blanked_phrase]

theorem map_blanked_itemsOf (operand : BoundOperand) :
    (itemsOf operand).map Term.blanked = itemsOf operand.blanked := by
  have single : [Term.ofOperand operand].map Term.blanked =
      [Term.ofOperand operand.blanked] := by
    simp [Term.blanked_ofOperand]
  cases operand with
  | literal value =>
      cases value with
      | list items =>
          simp [itemsOf, BoundOperand.blanked, Literal.blanked, Literal.blankedOf_eq_map,
            Term.blanked]
      | _ => exact single
  | column bound => exact single
  | call function => exact single

theorem blanked_compareCaseless
    (dialect : Dialect)
    (left : Term)
    (negated : Bool)
    (right : Term) :
    (compareCaseless dialect left negated right).blanked =
      compareCaseless dialect left.blanked negated right.blanked := by
  rw [compareCaseless, compareCaseless]
  split <;> simp [blanked, Term.blanked, Term.blankedOf]

/-- What becomes of a condition does not depend on its texts. -/
theorem blanked_ofCondition
    (dialect : Dialect)
    (condition : BoundCondition) :
    (ofCondition dialect condition).blanked = ofCondition dialect condition.blanked := by
  obtain ⟨column, comparison, operand⟩ := condition
  have right := Term.blanked_ofOperand operand
  have items := map_blanked_itemsOf operand
  have equality : (ofCondition dialect ⟨column, .equal, operand⟩).blanked =
        ofCondition dialect ⟨column, .equal, operand.blanked⟩ ∧
      (ofCondition dialect ⟨column, .notEqual, operand⟩).blanked =
        ofCondition dialect ⟨column, .notEqual, operand.blanked⟩ := by
    -- Only a null is compared in another way, and it has no texts.
    cases operand with
    | literal value =>
        cases value <;> simp_all [ofCondition, BoundOperand.blanked, Literal.blanked, blanked]
    | column bound => simp_all [ofCondition, BoundOperand.blanked, blanked]
    | call function => simp_all [ofCondition, BoundOperand.blanked, blanked]
  cases comparison with
  | equal => exact equality.1
  | notEqual => exact equality.2
  | ilike =>
      simp only [ofCondition, BoundCondition.blanked]
      rw [blanked_compareCaseless, right, Term.blanked_ofColumn]
  | notIlike =>
      simp only [ofCondition, BoundCondition.blanked]
      rw [blanked_compareCaseless, right, Term.blanked_ofColumn]
  | _ => simp [ofCondition, BoundCondition.blanked, blanked, right, items]

end Predicate

/-! ## Tests without their texts -/

mutual

/-- A clause with its predicates changed. -/
def Clause.map (change : Predicate → Predicate) : Clause → Clause
  | .predicate inner => .predicate (change inner)
  | .group junction negated parts => .group junction negated (Clause.mapAll change parts)

/-- Clauses with their predicates changed. -/
def Clause.mapAll (change : Predicate → Predicate) : List Clause → List Clause
  | [] => []
  | part :: rest => part.map change :: Clause.mapAll change rest

end

/-- A test with its predicates changed. -/
def Test.map (change : Predicate → Predicate) : Test → Test
  | .truth value => .truth value
  | .predicate inner => .predicate (change inner)
  | .combine junction left right => .combine junction (left.map change) (right.map change)
  | .not inner => .not (inner.map change)

namespace Clause

variable (change : Predicate → Predicate)

theorem asPart_map (clause : Clause) :
    (clause.map change).asPart = clause.asPart.map change := by
  match clause with
  | .predicate _ => rfl
  | .group _ true _ => rfl
  | .group _ false [] => rfl
  | .group _ false [_] => rfl
  | .group _ false (_ :: _ :: _) => rfl

theorem negate_map (clause : Clause) :
    (clause.map change).negate = clause.negate.map change := by
  cases clause <;> simp [negate, map, mapAll]

variable {dialect : Dialect} {change : Predicate → Predicate}
  {image : BoundCondition → BoundCondition}

mutual

/-- The clause of a formula whose leaves are changed is the clause of the formula with
its predicates changed in the same way. -/
theorem ofFormula_map
    (commutes : ∀ condition, Predicate.ofCondition dialect (image condition) =
      change (Predicate.ofCondition dialect condition)) :
    ∀ formula : Formula BoundCondition,
      ofFormula dialect (formula.map image) = (ofFormula dialect formula).map change
  | .leaf condition => by
      simp [Formula.map, ofFormula, map, mapAll, commutes]
  | .and members => by
      rw [Formula.map, ofFormula, ofFormula, map, partsOf_map commutes members]
  | .or members => by
      rw [Formula.map, ofFormula, ofFormula, map, partsOf_map commutes members]
  | .not inner => by
      rw [Formula.map, ofFormula, ofFormula, ofFormula_map commutes inner, negate_map]

theorem partsOf_map
    (commutes : ∀ condition, Predicate.ofCondition dialect (image condition) =
      change (Predicate.ofCondition dialect condition)) :
    ∀ members : List (Formula BoundCondition),
      partsOf dialect (Formula.mapAll image members) =
        mapAll change (partsOf dialect members)
  | [] => rfl
  | member :: rest => by
      rw [Formula.mapAll, partsOf, partsOf, mapAll, ofFormula_map commutes member,
        asPart_map, partsOf_map commutes rest]

end

end Clause

namespace Test

variable (change : Predicate → Predicate)

theorem combineAll_map
    (junction : Junction)
    (tests : List Test) :
    combineAll junction (tests.map (map change)) =
      (combineAll junction tests).map change := by
  cases tests with
  | nil => rfl
  | cons first rest =>
      rw [List.map_cons, combineAll, combineAll]
      induction rest generalizing first with
      | nil => rfl
      | cons second others inductionHypothesis =>
          exact inductionHypothesis (.combine junction first second)

mutual

theorem ofClause_map :
    ∀ clause : Clause, ofClause (clause.map change) = (ofClause clause).map change
  | .predicate _ => rfl
  | .group junction negated parts => by
      rw [Clause.map, ofClause, ofClause, ofParts_mapAll parts, combineAll_map]
      cases negated <;> rfl

theorem ofParts_mapAll :
    ∀ parts : List Clause,
      ofParts (Clause.mapAll change parts) = (ofParts parts).map (map change)
  | [] => rfl
  | part :: rest => by
      rw [Clause.mapAll, ofParts, ofParts, ofClause_map part, ofParts_mapAll rest,
        List.map_cons]

end

/-- The test of a formula with its texts emptied is the test of the formula with its
texts emptied. -/
theorem ofFormula_blanked
    (dialect : Dialect)
    (formula : Formula BoundCondition) :
    ofFormula dialect (formula.map BoundCondition.blanked) =
      (ofFormula dialect formula).map Predicate.blanked := by
  have commutes := fun condition =>
    (Predicate.blanked_ofCondition dialect condition).symm
  rw [ofFormula, ofFormula, Clause.ofFormula_map commutes, ofClause_map]

theorem isBare_map_blanked (test : Test) :
    (test.map Predicate.blanked).isBare = test.isBare := by
  cases test with
  | predicate inner => exact inner.isBare_blanked
  | _ => rfl

theorem combinesBy_map
    (junction : Junction)
    (test : Test) :
    (test.map change).combinesBy junction = test.combinesBy junction := by
  cases test <;> rfl

theorem map_blanked_enclosed
    (bare : Bool)
    (tokens : List Token) :
    (enclosed bare tokens).map Token.blanked =
      enclosed bare (tokens.map Token.blanked) := by
  cases bare <;> simp [enclosed, Token.map_blanked_parenthesized]

theorem map_blanked_tokens
    (dialect : Dialect)
    (test : Test) :
    (test.tokens dialect).map Token.blanked =
      (test.map Predicate.blanked).tokens dialect := by
  induction test with
  | truth value => cases value <;> rfl
  | predicate inner => exact inner.map_blanked_tokens dialect
  | combine junction left right leftTokens rightTokens =>
      simp [tokens, map, map_blanked_enclosed, Token.blanked, isBare_map_blanked,
        combinesBy_map, leftTokens, rightTokens]
  | not inner innerTokens =>
      simp [tokens, map, map_blanked_enclosed, Token.blanked, isBare_map_blanked,
        innerTokens]

end Test

end Sql

/-! ## Names and texts in their order -/

/-- The token is a name or a text. -/
def Sql.Token.isQuoted {Text : Type} : Token Text → Bool
  | .name _ => true
  | .text _ => true
  | .word _ => false
  | .symbol _ => false
  | .number _ => false
  | .space => false

/-- What a token that is a text has in its place. -/
def Sql.Token.text? {Text : Type} : Token Text → Option Text
  | .text content => some content
  | _ => none

/-- The tokens of the alias and the name of a column. -/
def Column.quoted (column : Column) : List Sql.Token :=
  [.name column.table.aliasName, .name column.name]

/-- The names and texts that an argument is written with. -/
def BoundArgument.quoted : BoundArgument → List Sql.Token
  | .column bound => bound.quoted
  | .literal value => value.texts.map .text

/-- The names and texts that an operand is written with. -/
def BoundOperand.quoted : BoundOperand → List Sql.Token
  | .literal value => value.texts.map .text
  | .column bound => bound.quoted
  | .call function => function.arguments.flatMap BoundArgument.quoted

namespace BoundCondition

/-- The condition asks for membership in the empty list, and is written without its
column. -/
def IsTrivial (condition : BoundCondition) : Prop :=
  (condition.comparison = .within ∨ condition.comparison = .notWithin) ∧
    condition.operand = .literal (.list [])

instance (condition : BoundCondition) : Decidable condition.IsTrivial :=
  inferInstanceAs (Decidable (_ ∧ _))

/-- The names and texts that a condition is written with. -/
def quoted (condition : BoundCondition) : List Sql.Token :=
  if condition.IsTrivial then []
  else condition.column.quoted ++ condition.operand.quoted

end BoundCondition

namespace Sql

namespace Token

theorem filter_isQuoted_spelled
    (setting : Bool)
    (dialect : Dialect)
    (tokens : List Token) :
    (tokens.map (spelled setting dialect)).filter isQuoted =
      (tokens.filter isQuoted).map (spelled setting dialect) := by
  rw [List.filter_map]
  congr 2
  funext token
  cases token <;> rfl

theorem filterMap_text?_spelled
    (setting : Bool)
    (dialect : Dialect)
    (tokens : List Token) :
    (tokens.map (spelled setting dialect)).filterMap text? =
      (tokens.filterMap text?).map (Spelling.ofText setting dialect) := by
  rw [List.filterMap_map, List.map_filterMap]
  congr 1
  funext token
  cases token <;> rfl

@[simp] theorem filter_isQuoted_listed :
    ∀ lists : List (List Token),
      (listed lists).filter isQuoted = lists.flatMap (List.filter isQuoted)
  | [] => rfl
  | [tokens] => by simp [listed]
  | first :: second :: rest => by
      have others := filter_isQuoted_listed (second :: rest)
      simp [listed, isQuoted, others]

@[simp] theorem filter_isQuoted_phrase :
    ∀ words : List String, (phrase words).filter isQuoted = []
  | [] => rfl
  | [_] => rfl
  | first :: second :: rest => by
      have others := filter_isQuoted_phrase (second :: rest)
      simpa [phrase, isQuoted] using others

@[simp] theorem filter_isQuoted_parenthesized (tokens : List Token) :
    (parenthesized tokens).filter isQuoted = tokens.filter isQuoted := by
  simp [parenthesized, isQuoted]

end Token

open Token in
mutual

theorem filter_isQuoted_literalTokens :
    ∀ value : Literal, (literalTokens value).filter isQuoted = value.texts.map .text
  | .null => rfl
  | .bool true => rfl
  | .bool false => rfl
  | .int _ => by simp [literalTokens, Literal.texts, isQuoted]
  | .float _ => by simp [literalTokens, Literal.texts, isQuoted]
  | .text _ => by simp [literalTokens, Literal.texts, isQuoted]
  | .list items => by
      rw [literalTokens, Literal.texts, filter_isQuoted_parenthesized,
        filter_isQuoted_listed, filter_isQuoted_literalTokensOf items]

theorem filter_isQuoted_literalTokensOf :
    ∀ items : List Literal, (literalTokensOf items).flatMap (List.filter isQuoted) =
      (Literal.textsOf items).map .text
  | [] => rfl
  | item :: rest => by
      rw [literalTokensOf, Literal.textsOf, List.flatMap_cons, List.map_append,
        filter_isQuoted_literalTokens item, filter_isQuoted_literalTokensOf rest]

end

namespace Term

mutual

/-- The names and texts that a term is written with. -/
def quoted : Term → List Token
  | .column table name => [.name table, .name name]
  | .everything => []
  | .literal value => value.texts.map .text
  | .call _ arguments => quotedOf arguments

/-- The names and texts that terms are written with. -/
def quotedOf : List Term → List Token
  | [] => []
  | term :: rest => term.quoted ++ quotedOf rest

end

theorem quotedOf_eq_flatMap (terms : List Term) :
    quotedOf terms = terms.flatMap quoted := by
  induction terms with
  | nil => rfl
  | cons term rest inductionHypothesis =>
      rw [quotedOf, inductionHypothesis, List.flatMap_cons]

mutual

theorem filter_isQuoted_tokens
    (dialect : Dialect) :
    ∀ term : Term, (term.tokens dialect).filter Token.isQuoted = term.quoted
  | .column _ _ => by
      rw [tokens, quoted]
      rfl
  | .everything => by
      rw [tokens, quoted]
      rfl
  | .literal value => by
      rw [tokens, quoted, filter_isQuoted_literalTokens]
  | .call callee arguments => by
      rw [tokens, quoted, List.filter_cons_of_neg (by simp [Token.isQuoted]),
        Token.filter_isQuoted_parenthesized, Token.filter_isQuoted_listed,
        filter_isQuoted_tokensOf dialect arguments]

theorem filter_isQuoted_tokensOf
    (dialect : Dialect) :
    ∀ terms : List Term,
      (tokensOf dialect terms).flatMap (List.filter Token.isQuoted) = quotedOf terms
  | [] => rfl
  | term :: rest => by
      rw [tokensOf, quotedOf, List.flatMap_cons, filter_isQuoted_tokens dialect term,
        filter_isQuoted_tokensOf dialect rest]

end

@[simp] theorem quoted_ofColumn (column : Column) :
    (ofColumn column).quoted = column.quoted := by
  rw [ofColumn, quoted, Column.quoted]

theorem quoted_ofArgument (argument : BoundArgument) :
    (ofArgument argument).quoted = argument.quoted := by
  cases argument with
  | column bound => exact quoted_ofColumn bound
  | literal value =>
      rw [ofArgument, quoted]
      rfl

theorem quoted_ofOperand
    {operand : BoundOperand}
    (takes : operand.Takes) :
    (ofOperand operand).quoted = operand.quoted := by
  cases operand with
  | literal value =>
      rw [ofOperand, quoted]
      rfl
  | column bound => exact quoted_ofColumn bound
  | call function =>
      have each : (function.arguments.map ofArgument).flatMap quoted =
          function.arguments.flatMap BoundArgument.quoted := by
        simp [List.flatMap_map, quoted_ofArgument]
      rw [BoundOperand.quoted, ← each, ofOperand]
      rcases ofCall_eq_of_takes takes with equal | ⟨none, equal⟩
      · rw [equal, quoted, quotedOf_eq_flatMap]
      · rw [equal, none, quoted, quotedOf_eq_flatMap]
        rfl

end Term

namespace Predicate

/-- The names and texts that a predicate is written with. Membership in the empty list is
written with none. -/
def quoted : Predicate → List Token
  | .compare left _ right => left.quoted ++ right.quoted
  | .member _ _ [] => []
  | .member left _ items => left.quoted ++ items.flatMap Term.quoted
  | .isNull left _ => left.quoted

theorem filter_isQuoted_tokens
    (dialect : Dialect)
    (predicate : Predicate) :
    (predicate.tokens dialect).filter Token.isQuoted = predicate.quoted := by
  cases predicate with
  | compare left operator right =>
      have operatorUnquoted : operator.tokens.filter Token.isQuoted = [] := by
        cases operator <;> rfl
      simp [tokens, quoted, Term.filter_isQuoted_tokens, operatorUnquoted, Token.isQuoted]
  | member left negated items =>
      cases items with
      | nil => cases negated <;> rfl
      | cons item rest =>
          simp [tokens, quoted, Term.filter_isQuoted_tokens, Token.isQuoted,
            Term.filter_isQuoted_tokensOf, Term.quotedOf_eq_flatMap]
  | isNull left negated =>
      simp [tokens, quoted, Term.filter_isQuoted_tokens, Token.isQuoted]

theorem quoted_compareCaseless
    (dialect : Dialect)
    (left : Term)
    (negated : Bool)
    (right : Term) :
    (compareCaseless dialect left negated right).quoted = left.quoted ++ right.quoted := by
  rw [compareCaseless]
  split <;> simp [quoted, Term.quoted, Term.quotedOf]

/-- Membership is written with the texts of its list, or with the operand that stands
for a list. -/
theorem quoted_member
    (column : Column)
    (negated : Bool)
    {operand : BoundOperand}
    (takes : operand.Takes) :
    (member (Term.ofColumn column) negated (itemsOf operand)).quoted =
      if operand = .literal (.list []) then [] else column.quoted ++ operand.quoted := by
  have right := Term.quoted_ofOperand takes
  rw [itemsOf.eq_def]
  split
  · rename_i items
    cases items with
    | nil => rfl
    | cons item rest =>
        have texts : ((item :: rest).map Term.literal).flatMap Term.quoted =
            BoundOperand.quoted (.literal (.list (item :: rest))) := by
          rw [BoundOperand.quoted, Literal.texts, Literal.textsOf_eq_flatMap,
            List.flatMap_map, List.map_flatMap]
          simp only [Term.quoted]
        rw [if_neg (by simp), ← texts, ← Term.quoted_ofColumn column]
        rfl
  · rename_i notList
    rw [if_neg (notList []), quoted, Term.quoted_ofColumn]
    · simp [right]
    · exact List.cons_ne_nil _ _

theorem quoted_ofCondition
    (dialect : Dialect)
    {condition : BoundCondition}
    (takes : condition.operand.Takes) :
    (ofCondition dialect condition).quoted = condition.quoted := by
  obtain ⟨column, comparison, operand⟩ := condition
  have right := Term.quoted_ofOperand takes
  have equality : (ofCondition dialect ⟨column, .equal, operand⟩).quoted =
        BoundCondition.quoted ⟨column, .equal, operand⟩ ∧
      (ofCondition dialect ⟨column, .notEqual, operand⟩).quoted =
        BoundCondition.quoted ⟨column, .notEqual, operand⟩ := by
    -- Only a null is compared in another way, and it has no texts.
    cases operand with
    | literal value =>
        cases value <;>
          simp_all [ofCondition, quoted, BoundCondition.quoted,
            BoundCondition.IsTrivial, BoundOperand.quoted, Literal.texts]
    | column bound =>
        simp_all [ofCondition, quoted, BoundCondition.quoted, BoundCondition.IsTrivial]
    | call function =>
        simp_all [ofCondition, quoted, BoundCondition.quoted, BoundCondition.IsTrivial]
  cases comparison with
  | within =>
      simpa [ofCondition, BoundCondition.quoted, BoundCondition.IsTrivial] using
        quoted_member column false takes
  | notWithin =>
      simpa [ofCondition, BoundCondition.quoted, BoundCondition.IsTrivial] using
        quoted_member column true takes
  | ilike =>
      simp [ofCondition, BoundCondition.quoted, BoundCondition.IsTrivial,
        quoted_compareCaseless, right]
  | notIlike =>
      simp [ofCondition, BoundCondition.quoted, BoundCondition.IsTrivial,
        quoted_compareCaseless, right]
  | equal => exact equality.1
  | notEqual => exact equality.2
  | _ =>
      simp [ofCondition, BoundCondition.quoted, BoundCondition.IsTrivial, quoted, right]

end Predicate

theorem Test.filter_isQuoted_tokens
    (dialect : Dialect)
    (test : Test) :
    (test.tokens dialect).filter Token.isQuoted =
      test.predicates.flatMap Predicate.quoted := by
  have unenclosed : ∀ bare (tokens : List Token),
      (enclosed bare tokens).filter Token.isQuoted = tokens.filter Token.isQuoted := by
    intro bare tokens
    cases bare <;> simp [enclosed]
  induction test with
  | truth value => cases value <;> rfl
  | predicate inner =>
      rw [tokens, predicates, inner.filter_isQuoted_tokens, List.flatMap_singleton]
  | combine junction left right leftTokens rightTokens =>
      simp [tokens, predicates, Token.isQuoted, unenclosed, leftTokens, rightTokens]
  | not inner innerTokens =>
      simp [tokens, predicates, Token.isQuoted, unenclosed, innerTokens]

/-- The names that a join is written with. -/
def joinNames (join : Join) : List Token :=
  [.name join.right.name, .name join.right.aliasName, .name join.left.aliasName,
    .name join.leftColumn, .name join.right.aliasName, .name join.rightColumn]

theorem Statement.filter_isQuoted_joinTokens (join : Join) :
    (joinTokens join).filter Token.isQuoted = joinNames join := by
  simp [joinTokens, tableTokens, List.filter_cons, Token.isQuoted, joinNames]

end Sql

namespace Filter

/-- The names and texts of the statement of a filter: those of the root table, of each
join and of each condition, in their order. -/
def quoted (filter : Filter) : List Sql.Token :=
  .name filter.root.name :: .name filter.root.aliasName
    :: filter.joins.flatMap Sql.joinNames
    ++ filter.formula.leaves.flatMap BoundCondition.quoted

variable {setting : Bool} {dialect : Dialect} {table : String}
  {foreignKeys : ForeignKeys} {domain other : Domain} {filter : Filter}

open Sql

/-- The tokens of the statement of a filter. -/
def tokens
    (dialect : Dialect)
    (filter : Filter) : List Token :=
  filter.frontTokens
    ++ .word "WHERE" :: .space :: (Test.ofFormula dialect filter.formula).tokens dialect

theorem scans_tokens (filter : Filter) :
    Scans setting dialect (filter.tokens dialect) := by
  let statement : Sql.Statement := ⟨[.everything], filter.root, filter.joins,
    Test.ofFormula dialect filter.formula, [], [], none, none⟩
  have same : statement.tokens dialect = filter.tokens dialect := by
    simp [statement, tokens, frontTokens, Statement.tokens, Statement.listTokens,
      Statement.countTokens, OutputColumn.tokens, Token.listed]
  rw [← same]
  exact statement.scans_tokens

/-- The names and texts among the tokens of a filter are those of its root table, its
joins and its conditions. -/
theorem filter_isQuoted_tokens
    (dialect : Dialect)
    {filter : Filter}
    (takes : ∀ condition ∈ filter.formula.leaves, condition.operand.Takes) :
    (filter.tokens dialect).filter Token.isQuoted = filter.quoted := by
  have leaves : filter.formula.leaves.flatMap
      (fun condition => (Predicate.ofCondition dialect condition).quoted) =
        filter.formula.leaves.flatMap BoundCondition.quoted :=
    List.flatMap_congr fun condition inLeaves =>
      Predicate.quoted_ofCondition dialect (takes condition inLeaves)
  have test := Test.filter_isQuoted_tokens dialect (Test.ofFormula dialect filter.formula)
  rw [(Test.expresses_ofFormula dialect filter.formula).predicates_eq, List.flatMap_map,
    leaves] at test
  simp [tokens, frontTokens, Statement.tableTokens, quoted, List.filter_cons,
    Token.isQuoted, test, List.filter_flatMap, Statement.filter_isQuoted_joinTokens]

theorem filterMap_text?_eq
    {Text : Type}
    (tokens : List (Token Text)) :
    tokens.filterMap Token.text? =
      (tokens.filter Token.isQuoted).filterMap Token.text? := by
  induction tokens with
  | nil => rfl
  | cons token rest inductionHypothesis =>
      cases token <;>
        simp [List.filter_cons, List.filterMap_cons, Token.isQuoted, Token.text?,
          inductionHypothesis]

theorem filterMap_text?_map (texts : List String) :
    (texts.map Token.text).filterMap Token.text? = texts := by
  simp [List.filterMap_map, Function.comp_def, Token.text?]

/-- The texts that a condition is written with are those of its operand. -/
theorem filterMap_text?_condition (condition : BoundCondition) :
    condition.quoted.filterMap Token.text? = condition.operand.texts := by
  have column : ∀ column : Column, column.quoted.filterMap Token.text? = [] :=
    fun _ => rfl
  rw [BoundCondition.quoted]
  split
  · rename_i isTrivial
    rw [isTrivial.2]
    rfl
  · rw [List.filterMap_append, column, List.nil_append]
    cases condition.operand with
    | literal value => exact filterMap_text?_map value.texts
    | column bound => rfl
    | call function =>
        rw [BoundOperand.quoted, BoundOperand.texts, List.filterMap_flatMap]
        refine List.flatMap_congr fun argument _ => ?_
        cases argument with
        | column bound => rfl
        | literal value => exact filterMap_text?_map value.texts

/-- The texts of a filter are those of its conditions, in their order. -/
theorem filterMap_text?_quoted (filter : Filter) :
    filter.quoted.filterMap Token.text? =
      filter.formula.leaves.flatMap fun condition => condition.operand.texts := by
  have names : (filter.joins.flatMap joinNames).filterMap Token.text? = [] := by
    rw [List.filterMap_flatMap, List.flatMap_eq_nil_iff]
    exact fun join _ => rfl
  have conditions : (filter.formula.leaves.flatMap BoundCondition.quoted).filterMap
      Token.text? = filter.formula.leaves.flatMap fun condition =>
        condition.operand.texts := by
    rw [List.filterMap_flatMap]
    exact List.flatMap_congr fun condition _ => filterMap_text?_condition condition
  rw [quoted, List.cons_append, List.cons_append, List.filterMap_cons_none rfl,
    List.filterMap_cons_none rfl, List.filterMap_append, names, conditions,
    List.nil_append]

/-- What the domain has been written as: the filter has been accepted, its statement is
split into the tokens, the names and texts among these are those of the filter, and the
texts come from those of the domain, one by one. In the place of each of them the dialect
reads the text itself, exactly when all its characters are kept. -/
structure WrittenAs
    (setting : Bool)
    (dialect : Dialect)
    (table : String)
    (foreignKeys : ForeignKeys)
    (domain : Domain)
    (filter : Filter)
    (tokens : List (Token Spelling)) : Prop where
  accepted : ofDomain table foreignKeys domain = .ok filter
  scanned : ∃ text, filter.toSql dialect = .ok text ∧
    scan setting dialect text = some tokens
  quoted : tokens.filter Token.isQuoted =
    filter.quoted.map (Token.spelled setting dialect)
  contents : List.Forall₂
    (fun spelling text => spelling.contents? dialect = some text ↔ IsKept dialect text)
    (tokens.filterMap Token.text?) domain.texts

theorem WrittenAs.map_contents?_eq
    {tokens : List (Token Spelling)}
    (written : WrittenAs setting dialect table foreignKeys domain filter tokens)
    (kept : ∀ text ∈ domain.texts, IsKept dialect text) :
    (tokens.filterMap Token.text?).map (Spelling.contents? dialect) =
      domain.texts.map some := by
  have contents := written.contents
  generalize tokens.filterMap Token.text? = spellings at contents ⊢
  generalize domain.texts = texts at contents kept ⊢
  induction contents with
  | nil => rfl
  | cons first _ inductionHypothesis =>
      obtain ⟨firstKept, restKept⟩ := List.forall_mem_cons.mp kept
      rw [List.map_cons, List.map_cons, first.mpr firstKept, inductionHypothesis restKept]

theorem writtenAs_of_bind
    (setting : Bool)
    {formula : Formula BoundCondition}
    {session : Session}
    (ran : outcome domain.bind (Session.start table foreignKeys) = (.ok formula, session))
    (checked : Statement.checkJoins dialect session.joins = .ok ()) :
    WrittenAs setting dialect table foreignKeys domain
      ⟨session.root, session.joins, formula⟩
      ((tokens dialect ⟨session.root, session.joins, formula⟩).map
        (Token.spelled setting dialect)) := by
  have quotedTokens := @filter_isQuoted_tokens dialect
    ⟨session.root, session.joins, formula⟩ (Domain.takes_of_bind ran)
  have written := toSql_eq dialect ⟨session.root, session.joins, formula⟩
  rw [checked] at written
  have quoted : ((tokens dialect ⟨session.root, session.joins, formula⟩).map
      (Token.spelled setting dialect)).filter Token.isQuoted =
        (Filter.quoted ⟨session.root, session.joins, formula⟩).map
          (Token.spelled setting dialect) := by
    rw [Token.filter_isQuoted_spelled, quotedTokens]
  refine ⟨ofDomain_eq_of_bind ran, ⟨_, written, scan_textOf (scans_tokens _)⟩, quoted, ?_⟩
  rw [filterMap_text?_eq, quoted, Token.filterMap_text?_spelled, filterMap_text?_quoted,
    Domain.texts_of_bind ran, List.forall₂_map_left_iff, List.forall₂_same]
  exact fun text _ => contents?_ofText_eq_iff setting dialect text

end Filter

end DomainSql
