import DomainSql.Proofs.ConditionReading
import DomainSql.Proofs.Outcome
import DomainSql.Sql.Statement

/-!
# The condition of a statement means the formula

The statement of a filter ends with its condition. By the reading order of SQL this
condition is read in exactly one way, and the reading has the predicates of the
leaves of the formula, in their order, and the truth value of the formula whatever
the leaves are: true, false or unknown.

Only Postgres sees its own operators for comparison without regard to case. They are
those that do not stand without parentheses, and no condition becomes one of them in
the other dialects.
-/

namespace DomainSql
namespace Sql

/-! ## Comparison without regard to case -/

namespace Token

theorem word_notMem_listed
    {spelling : String}
    {lists : List (List Token)}
    (notMem : ∀ tokens ∈ lists, .word spelling ∉ tokens) :
    .word spelling ∉ listed lists := by
  fun_induction listed lists with
  | case1 => simp
  | case2 tokens => exact notMem tokens (by simp)
  | case3 tokens rest _ inductionHypothesis =>
      have notFirst := notMem tokens (by simp)
      have notRest := inductionHypothesis fun others inRest =>
        notMem others (List.mem_cons_of_mem _ inRest)
      simp [notFirst, notRest]

theorem word_notMem_parenthesized
    {spelling : String}
    {tokens : List Token}
    (notMem : .word spelling ∉ tokens) :
    .word spelling ∉ parenthesized tokens := by
  simp [parenthesized, notMem]

end Token

mutual

theorem ilike_notMem_literalTokens :
    ∀ value : Literal, .word "ILIKE" ∉ literalTokens value
  | .null => by simp [literalTokens]
  | .bool true => by simp [literalTokens]
  | .bool false => by simp [literalTokens]
  | .int _ => by simp [literalTokens]
  | .float _ => by simp [literalTokens]
  | .text _ => by simp [literalTokens]
  | .list items => by
      rw [literalTokens]
      exact Token.word_notMem_parenthesized
        (Token.word_notMem_listed (ilike_notMem_literalTokensOf items))

theorem ilike_notMem_literalTokensOf :
    ∀ items : List Literal, ∀ tokens ∈ literalTokensOf items,
      .word "ILIKE" ∉ tokens
  | [] => by simp [literalTokensOf]
  | item :: rest => by
      rw [literalTokensOf, List.forall_mem_cons]
      exact ⟨ilike_notMem_literalTokens item, ilike_notMem_literalTokensOf rest⟩

end

theorem Callee.word_ne_ilike
    (dialect : Dialect)
    (callee : Callee) :
    callee.word dialect ≠ "ILIKE" := by
  cases callee with
  | function name => cases name <;> cases dialect <;> decide
  | lower => simp [word]

namespace Term

variable (dialect : Dialect)

mutual

theorem ilike_notMem_tokens :
    ∀ term : Term, .word "ILIKE" ∉ term.tokens dialect
  | .column _ _ => by simp [tokens]
  | .everything => by simp [tokens]
  | .literal value => by
      rw [tokens]
      exact ilike_notMem_literalTokens value
  | .call callee arguments => by
      have notArguments := Token.word_notMem_parenthesized
        (Token.word_notMem_listed (ilike_notMem_tokensOf arguments))
      simp [tokens, (callee.word_ne_ilike dialect).symm, notArguments]

theorem ilike_notMem_tokensOf :
    ∀ terms : List Term, ∀ tokens ∈ tokensOf dialect terms,
      .word "ILIKE" ∉ tokens
  | [] => by simp [tokensOf]
  | term :: rest => by
      rw [tokensOf, List.forall_mem_cons]
      exact ⟨ilike_notMem_tokens term, ilike_notMem_tokensOf rest⟩

end

end Term

namespace Predicate

/-- A predicate that needs no parentheses compares with regard to case. -/
theorem ilike_notMem_tokens
    (dialect : Dialect)
    {predicate : Predicate}
    (bare : predicate.isBare = true) :
    .word "ILIKE" ∉ predicate.tokens dialect := by
  cases predicate with
  | compare left operator right =>
      cases operator <;>
        simp_all [isBare, tokens, Operator.tokens, Token.phrase,
          Term.ilike_notMem_tokens]
  | member left negated items =>
      cases items with
      | nil => simp [tokens]
      | cons item rest =>
          have notItems := Token.word_notMem_parenthesized
            (Token.word_notMem_listed
              (Term.ilike_notMem_tokensOf dialect (item :: rest)))
          cases negated <;>
            simp [tokens, Token.phrase, Term.ilike_notMem_tokens, notItems]
  | isNull left negated =>
      cases negated <;> simp [tokens, Token.phrase, Term.ilike_notMem_tokens]

/-- Outside Postgres no condition needs parentheses. -/
theorem isBare_ofCondition
    {dialect : Dialect}
    (notPostgres : dialect ≠ .postgres)
    (condition : BoundCondition) :
    (ofCondition dialect condition).isBare = true := by
  unfold ofCondition
  split <;> simp [isBare, compareCaseless, notPostgres]

end Predicate

theorem Mark.ilike_notMem_tokens
    (dialect : Dialect)
    {marks : List Mark}
    (bare : ∀ predicate ∈ atoms marks, predicate.isBare = true) :
    .word "ILIKE" ∉ marks.flatMap (tokens dialect) := by
  intro inTokens
  obtain ⟨mark, inMarks, inMark⟩ := List.mem_flatMap.mp inTokens
  cases mark with
  | atom predicate =>
      have inAtoms : predicate ∈ atoms marks :=
        List.mem_filterMap.mpr ⟨_, inMarks, rfl⟩
      exact Predicate.ilike_notMem_tokens dialect (bare predicate inAtoms) inMark
  | constant value => cases value <;> simp [tokens] at inMark
  | between junction =>
      cases junction <;> simp [tokens, Test.junctionWord] at inMark
  | not => simp [tokens] at inMark
  | opening => simp [tokens] at inMark
  | closing => simp [tokens] at inMark

theorem Statement.where_notMem_joinTokens (join : Join) :
    .word "WHERE" ∉ joinTokens join := by
  cases form : join.kind.form <;>
    simp [joinTokens, form, joinWords, Token.phrase, tableTokens]

end Sql

namespace Filter

open Sql

/-- The tokens of the statement of a filter in front of its condition. -/
def frontTokens (filter : Filter) : List Token :=
  .word "SELECT" :: .space :: .symbol "*" :: .space :: .word "FROM" :: .space
    :: Statement.tableTokens filter.root
    ++ filter.joins.flatMap Statement.joinTokens ++ [.space]

theorem where_notMem_frontTokens (filter : Filter) :
    .word "WHERE" ∉ filter.frontTokens := by
  simp [frontTokens, Statement.tableTokens, Statement.where_notMem_joinTokens]

/-- The statement of a filter ends with its condition. -/
theorem toSql_eq
    (dialect : Dialect)
    (filter : Filter) :
    filter.toSql dialect =
      (Statement.checkJoins dialect filter.joins).map fun _ =>
        Token.textOf dialect
          (filter.frontTokens
            ++ .word "WHERE" :: .space
              :: (Test.ofFormula dialect filter.formula).tokens dialect) := by
  unfold toSql statement
  cases Statement.checkJoins dialect filter.joins with
  | error error => rfl
  | ok _ =>
      simp [bind, Except.bind, pure, Except.pure, Except.map, Statement.text,
        Statement.tokens, Statement.listTokens, Statement.countTokens,
        OutputColumn.tokens, Token.listed, frontTokens]

/-- Unless the dialect lacks one of the joins, the text of a filter ends with the
marks behind its first "WHERE". They are read in exactly one way. The reading has the
truth value of the formula whatever the truth values of the leaves are, its
predicates are those of the leaves, each of them once and in their order, and only
Postgres gets operators of its own for comparison without regard to case. -/
theorem condition_of_statement_means_formula
    (dialect : Dialect)
    (filter : Filter) :
    ∃ front marks reading,
      .word "WHERE" ∉ front ∧
      filter.toSql dialect =
        ((Statement.checkJoins dialect filter.joins).map fun _ =>
          Token.textOf dialect
            (front ++ .word "WHERE" :: .space
              :: marks.flatMap (Mark.tokens dialect))) ∧
      (∀ test, Reads .disjunction marks test ↔ test = reading) ∧
      (∀ truth, reading.valueFrom truth 0 = filter.formula.valueFrom truth 0) ∧
      reading.predicates = Mark.atoms marks ∧
      Mark.atoms marks =
        filter.formula.leaves.map (Predicate.ofCondition dialect) ∧
      (dialect ≠ .postgres →
        .word "ILIKE" ∉ marks.flatMap (Mark.tokens dialect)) := by
  let test := Test.ofFormula dialect filter.formula
  have expresses : test.Expresses dialect filter.formula :=
    Test.expresses_ofFormula dialect filter.formula
  have atoms : Mark.atoms test.marks = test.predicates :=
    test.reads_marks.atoms_eq
  have atomsOfLeaves : Mark.atoms test.marks =
      filter.formula.leaves.map (Predicate.ofCondition dialect) :=
    atoms.trans expresses.predicates_eq
  refine ⟨filter.frontTokens, test.marks, test, filter.where_notMem_frontTokens,
    ?_, fun _ => Test.reads_marks_iff, fun truth => expresses.valueFrom_eq truth 0,
    atoms.symm, atomsOfLeaves, fun notPostgres => ?_⟩
  · rw [← Test.tokens_eq_flatMap_marks]
    exact filter.toSql_eq dialect
  · refine Mark.ilike_notMem_tokens dialect ?_
    rw [atomsOfLeaves, List.forall_mem_map]
    exact fun condition _ => Predicate.isBare_ofCondition notPostgres condition

/-- Under a negated disjunction the conjunction keeps its parentheses, and so does the
negation beside it. -/
theorem condition_of_negated_disjunction :
    let domain : Domain :=
      [.marker "!", .marker "|", .marker "&",
        .condition ⟨"name", "ilike", .literal (.text "a%")⟩,
        .condition ⟨"state", "=", .literal (.text "new")⟩,
        .marker "!", .condition ⟨"age", "<", .literal (.int 18)⟩]
    let text : String :=
      "SELECT * FROM `users` AS `t0` WHERE NOT ((LOWER(`t0`.`name`) LIKE LOWER('a%')"
        ++ " AND `t0`.`state` = 'new') OR (NOT `t0`.`age` < 18))"
    ∃ filter, ofDomain "users" (fun _ _ => none) domain = .ok filter ∧
      filter.toSql .mysql = .ok text ∧
      ∃ marks reading,
        (∀ test, Reads .disjunction marks test ↔ test = reading) ∧
        (∀ truth,
          reading.valueFrom truth 0 = filter.formula.valueFrom truth 0) ∧
        .word "ILIKE" ∉ marks.flatMap (Mark.tokens .mysql) := by
  intro domain text
  have computed : (ofDomain "users" (fun _ _ => none) domain).toOption.map
      (fun filter => (filter.toSql .mysql).toOption) = some (some text) := by
    decide +kernel
  obtain ⟨filter, found, written⟩ := Option.map_eq_some_iff.mp computed
  obtain ⟨_, marks, reading, _, _, unique, value, _, _, caseful⟩ :=
    condition_of_statement_means_formula .mysql filter
  exact ⟨filter, eq_ok_of_toOption_eq_some found, eq_ok_of_toOption_eq_some written,
    marks, reading, unique, value, caseful (by decide)⟩

end Filter
end DomainSql
