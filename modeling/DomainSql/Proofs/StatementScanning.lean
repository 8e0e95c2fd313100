import DomainSql.Proofs.TokenScanning

/-!
# Statements are split into their tokens

Every piece of a statement is scanned: the words, numbers and operators are spelled as
such, and the pieces are put together with spaces, parentheses and commas between them.
So the text of a statement consists of the tokens that it has been written from, whatever
its names and texts contain.
-/

namespace DomainSql
namespace Sql

variable {setting : Bool} {dialect : Dialect}

/-! ## Numbers -/

/-- Digits, at least one of them. -/
def Digits (chars : List Char) : Prop :=
  chars ≠ [] ∧ ∀ char ∈ chars, char.isDigit = true

theorem digits_toDigits (number : Nat) : Digits (Nat.toDigits 10 number) :=
  ⟨Nat.toDigits_ne_nil,
    fun _ => Nat.isDigit_of_mem_toDigits (by decide) (by decide)⟩

/-- Digits, with digits behind a point or without them, are a number, and so they are
behind a sign. -/
theorem isNumber_of_digits
    {front back : List Char}
    (frontDigits : Digits front)
    (backDigits : back = [] ∨ ∃ others, back = '.' :: others ∧ Digits others)
    (isNegative : Bool) :
    isNumber (String.ofList (if isNegative then '-' :: (front ++ back)
      else front ++ back)) = true := by
  obtain ⟨nonempty, allDigits⟩ := frontDigits
  obtain ⟨first, others, rfl⟩ := List.exists_cons_of_ne_nil nonempty
  have all : (first :: others ++ back).all
      (fun char => char.isDigit || char == '.') = true := by
    rcases backDigits with rfl | ⟨behind, rfl, _, behindDigits⟩
    · simp_all
    · simp_all
  have last : ((first :: others ++ back).getLast?.map Char.isDigit).getD false = true := by
    rcases backDigits with rfl | ⟨behind, rfl, behindNonempty, behindDigits⟩
    · rw [List.append_nil, List.getLast?_eq_some_getLast nonempty]
      exact allDigits _ (List.getLast_mem nonempty)
    · rw [List.getLast?_append, List.getLast?_cons,
        List.getLast?_eq_some_getLast behindNonempty]
      exact behindDigits _ (List.getLast_mem behindNonempty)
  have firstDigit : first.isDigit = true := allDigits first List.mem_cons_self
  rw [isNumber, String.toList_ofList]
  cases isNegative with
  | true =>
      simp only [if_true, List.head?_reverse, List.cons_append, List.getLast?_cons_cons]
      rw [List.cons_append] at all last
      rw [all, last]
      rfl
  | false =>
      rw [List.cons_append, List.all_cons, Bool.and_eq_true] at all
      rw [List.cons_append] at last
      simp only [Bool.false_eq_true, if_false, List.head?_reverse, List.cons_append]
      rw [all.2, last, firstDigit]
      rfl

theorem isNumber_intChars (value : Int) :
    isNumber (String.ofList (Json.intChars value)) = true := by
  have spelled := isNumber_of_digits (digits_toDigits value.natAbs) (.inl rfl)
    (decide (value < 0))
  simpa [Json.intChars] using spelled

/-- A decimal with its point in position has digits around the point, or no point. -/
theorem exists_plainChars_eq (decimal : Decimal) :
    ∃ front back, numberLayout.plainChars decimal = front ++ back ∧ Digits front ∧
      (back = [] ∨ ∃ others, back = '.' :: others ∧ Digits others) := by
  obtain ⟨nonempty, allDigits⟩ : Digits decimal.digitChars :=
    digits_toDigits decimal.digits
  rw [Decimal.Layout.plainChars]
  split
  · refine ⟨decimal.digitChars ++ List.replicate decimal.place.toNat '0', [], rfl,
      ⟨by simp [nonempty], ?_⟩, .inl rfl⟩
    intro char inChars
    rcases List.mem_append.mp inChars with inDigits | inZeros
    · exact allDigits char inDigits
    · rw [List.eq_of_mem_replicate inZeros]
      rfl
  · rename_i negative
    simp only
    split
    · rename_i inside
      refine ⟨_, _, rfl, ⟨?_, fun char inFront => allDigits char ?_⟩,
        .inr ⟨_, rfl, ?_, fun char inBack => allDigits char ?_⟩⟩
      · rw [← List.length_pos_iff, List.length_take]
        omega
      · exact List.mem_of_mem_take inFront
      · rw [← List.length_pos_iff, List.length_drop]
        omega
      · exact List.mem_of_mem_drop inBack
    · refine ⟨['0'], _, rfl, ⟨by simp, by simp⟩, .inr ⟨_, rfl, by simp [nonempty], ?_⟩⟩
      intro char inChars
      rcases List.mem_append.mp inChars with inZeros | inDigits
      · rw [List.eq_of_mem_replicate inZeros]
        rfl
      · exact allDigits char inDigits

/-- A number without exponent consists of digits and a point between them. -/
theorem isNumber_numberLayout (value : Binary64) :
    isNumber (numberLayout.write value) = true := by
  obtain ⟨front, back, chars, frontDigits, backDigits⟩ :=
    exists_plainChars_eq (Decimal.shortest numberLayout.tie value)
  rw [Decimal.Layout.write]
  have plain : numberLayout.isPlain
      (Decimal.shortest numberLayout.tie value).leadingPlace = true := rfl
  simp only [plain, if_true, chars]
  exact isNumber_of_digits frontDigits backDigits value.isNegative

/-! ## Terms and predicates -/

mutual

theorem scans_literalTokens :
    ∀ value : Literal, Scans setting dialect (literalTokens value)
  | .null => .word (by decide +kernel)
  | .bool true => .word (by decide +kernel)
  | .bool false => .word (by decide +kernel)
  | .int value => by
      rw [literalTokens]
      exact .number (isNumber_intChars value.toInt)
  | .float value => by
      rw [literalTokens]
      exact .number (isNumber_numberLayout value)
  | .text value => by
      rw [literalTokens]
      exact .text value
  | .list items => by
      rw [literalTokens]
      exact .parenthesized (.listed (scans_literalTokensOf items))

theorem scans_literalTokensOf :
    ∀ items : List Literal, ∀ tokens ∈ literalTokensOf items,
      Scans setting dialect tokens
  | [] => by simp [literalTokensOf]
  | item :: rest => by
      rw [literalTokensOf, List.forall_mem_cons]
      exact ⟨scans_literalTokens item, scans_literalTokensOf rest⟩

end

theorem Callee.isWord_word
    (dialect : Dialect)
    (callee : Callee) :
    isWord (callee.word dialect) = true := by
  cases callee with
  | function name => cases name <;> cases dialect <;> decide +kernel
  | lower =>
      have spelled : isWord "LOWER" = true := by decide +kernel
      rwa [word]

namespace Term

mutual

theorem scans_tokens :
    ∀ term : Term, Scans setting dialect (term.tokens dialect)
  | .column table name => by
      rw [tokens]
      exact .qualified table (.name name)
  | .everything => by
      rw [tokens]
      exact .mark rfl
  | .literal value => by
      rw [tokens]
      exact scans_literalTokens value
  | .call callee arguments => by
      rw [tokens]
      exact .append (.inr (.inl rfl)) (.word (callee.isWord_word dialect))
        (.append (.inr (.inr (.inl rfl))) (.listed (scans_tokensOf arguments)) .nil)

theorem scans_tokensOf :
    ∀ terms : List Term, ∀ tokens ∈ tokensOf dialect terms, Scans setting dialect tokens
  | [] => by simp [tokensOf]
  | term :: rest => by
      rw [tokensOf, List.forall_mem_cons]
      exact ⟨scans_tokens term, scans_tokensOf rest⟩

end

end Term

theorem Operator.scans_tokens (operator : Operator) :
    Scans setting dialect operator.tokens := by
  cases operator with
  | equal => exact .operator (by decide +kernel)
  | notEqual => exact .operator (by decide +kernel)
  | less => exact .operator (by decide +kernel)
  | lessOrEqual => exact .operator (by decide +kernel)
  | greater => exact .operator (by decide +kernel)
  | greaterOrEqual => exact .operator (by decide +kernel)
  | like => exact .word (by decide +kernel)
  | notLike => exact .phrase (by decide +kernel)
  | ilike => exact .word (by decide +kernel)
  | notIlike => exact .phrase (by decide +kernel)

theorem Predicate.scans_tokens (predicate : Predicate) :
    Scans setting dialect (predicate.tokens dialect) := by
  cases predicate with
  | compare left operator right =>
      exact .append (.inl rfl) (.append (.inl rfl) left.scans_tokens operator.scans_tokens)
        right.scans_tokens
  | member left negated items =>
      cases items with
      | nil =>
          have one : Scans setting dialect [.number "1"] := .number (by decide +kernel)
          have equal : Scans setting dialect [.symbol "="] := .operator (by decide +kernel)
          refine .append (.inl rfl) one (.append (.inl rfl) equal (.number ?_))
          cases negated <;> decide +kernel
      | cons item rest =>
          have words : (if negated then ["NOT", "IN"] else ["IN"]).all isWord = true := by
            cases negated <;> decide +kernel
          exact .append (.inl rfl)
            (.append (.inl rfl) left.scans_tokens (.phrase words))
            (.parenthesized (.listed (Term.scans_tokensOf (item :: rest))))
  | isNull left negated =>
      have words : (if negated then ["IS", "NOT", "NULL"] else ["IS", "NULL"]).all
          isWord = true := by
        cases negated <;> decide +kernel
      exact .append (.inl rfl) left.scans_tokens (.phrase words)

/-! ## Tests, joins and statements -/

theorem Test.scans_enclosed
    (bare : Bool)
    {tokens : List Token}
    (scans : Scans setting dialect tokens) :
    Scans setting dialect (enclosed bare tokens) := by
  rw [enclosed]
  split
  · exact scans
  · exact scans.parenthesized

theorem Test.scans_tokens (test : Test) :
    Scans setting dialect (test.tokens dialect) := by
  induction test with
  | truth value => cases value <;> exact .word (by decide +kernel)
  | predicate inner => exact inner.scans_tokens
  | combine junction left right leftScans rightScans =>
      have word : isWord (junctionWord junction) = true := by
        cases junction <;> decide +kernel
      exact .append (.inl rfl) (scans_enclosed _ leftScans)
        (.append (.inl rfl) (.word word) (scans_enclosed _ rightScans))
  | not inner innerScans =>
      exact .append (.inl rfl) (.word (by decide +kernel)) (scans_enclosed _ innerScans)

namespace Statement

theorem scans_tableTokens (table : Table) :
    Scans setting dialect (tableTokens table) :=
  .append (.inl rfl) (.name table.name)
    (.append (.inl rfl) (.word (by decide +kernel)) (.name table.aliasName))

theorem scans_joinTokens (join : Join) :
    Scans setting dialect (joinTokens join) := by
  have words : (joinWords join.kind.form).all isWord = true := by
    cases join.kind.form <;> decide +kernel
  have equal : Scans setting dialect [.symbol "="] := .operator (by decide +kernel)
  have condition : Scans setting dialect
      ([.word "ON"]
        ++ .space :: ([.name join.left.aliasName, .symbol ".", .name join.leftColumn]
        ++ .space :: ([.symbol "="] ++ .space ::
          [.name join.right.aliasName, .symbol ".", .name join.rightColumn]))) :=
    .append (.inl rfl) (.word (by decide +kernel))
      (.append (.inl rfl) (.qualified _ (.name _))
        (.append (.inl rfl) equal (.qualified _ (.name _))))
  exact .append (.inl rfl)
    (.append (.inl rfl) (.behind (.inl rfl) (.phrase words))
      (scans_tableTokens join.right)) condition

theorem led_flatMap_joinTokens (joins : List Join) :
    ∀ token ∈ (joins.flatMap joinTokens).head?, token.Delimits := by
  cases joins with
  | nil => nofun
  | cons join rest => exact fun token isFirst => .inl (Option.some.inj isFirst).symm

theorem scans_flatMap_joinTokens (joins : List Join) :
    Scans setting dialect (joins.flatMap joinTokens) := by
  induction joins with
  | nil => exact .nil
  | cons join rest inductionHypothesis =>
      rw [List.flatMap_cons]
      exact (scans_joinTokens join).append_led (led_flatMap_joinTokens rest)
        inductionHypothesis

theorem scans_append_listTokens
    {front : List Token}
    (scans : Scans setting dialect front)
    {words : List String}
    (spelled : words.all isWord = true)
    {entries : List (List Token)}
    (each : ∀ tokens ∈ entries, Scans setting dialect tokens) :
    Scans setting dialect (front ++ listTokens words entries) := by
  rw [listTokens]
  split
  · rw [List.append_nil]
    exact scans
  · exact scans.append (.inl rfl) (.append (.inl rfl) (.phrase spelled) (.listed each))

theorem scans_append_countTokens
    {front : List Token}
    (scans : Scans setting dialect front)
    {word : String}
    (spelled : isWord word = true)
    (count : Option Nat) :
    Scans setting dialect (front ++ countTokens word count) := by
  cases count with
  | none =>
      rw [countTokens, List.append_nil]
      exact scans
  | some count =>
      have digits : isNumber (Nat.repr count) = true := by
        simpa [Nat.repr_eq_ofList_toDigits] using
          isNumber_of_digits (digits_toDigits count) (.inl rfl) false
      exact scans.append (.inl rfl)
        (.append (.inl rfl) (.word spelled) (.number digits))

end Statement

theorem OutputColumn.scans_tokens (column : OutputColumn) :
    Scans setting dialect (column.tokens dialect) := by
  cases column with
  | everything => exact .mark rfl
  | everythingOf table => exact .qualified table (.mark rfl)
  | term value name =>
      exact .append (.inl rfl) value.scans_tokens
        (.append (.inl rfl) (.word (by decide +kernel)) (.name name))

theorem Ordering.scans_tokens (ordering : Ordering) :
    Scans setting dialect (ordering.tokens dialect) := by
  have sorted : Scans setting dialect (ordering.term.tokens dialect
      ++ [.space, .word (directionWord ordering.direction)]) := by
    refine .append (.inl rfl) ordering.term.scans_tokens (.word ?_)
    cases ordering.direction <;> decide +kernel
  rw [tokens]
  split
  · exact sorted
  · rename_i place _
    split
    · refine .append (.inr (.inr (.inr rfl)))
        (.append (.inl rfl) ordering.term.scans_tokens (.phrase ?_))
        (.behind (.inl rfl) sorted)
      cases place <;> decide +kernel
    · refine .append (.inl rfl) sorted (.phrase ?_)
      cases place <;> decide +kernel

namespace Statement

theorem scans_tokens (statement : Statement) :
    Scans setting dialect (statement.tokens dialect) := by
  have columns : ∀ tokens ∈ statement.columns.map (OutputColumn.tokens dialect),
      Scans setting dialect tokens :=
    List.forall_mem_map.mpr fun column _ => column.scans_tokens
  have groups : ∀ tokens ∈ statement.groupBy.map (Term.tokens dialect),
      Scans setting dialect tokens :=
    List.forall_mem_map.mpr fun term _ => term.scans_tokens
  have orders : ∀ tokens ∈ statement.orderBy.map (Ordering.tokens dialect),
      Scans setting dialect tokens :=
    List.forall_mem_map.mpr fun ordering _ => ordering.scans_tokens
  have selected : Scans setting dialect (.word "SELECT" :: .space ::
      Token.listed (statement.columns.map (OutputColumn.tokens dialect))) :=
    .append (.inl rfl) (.word (by decide +kernel)) (.listed columns)
  have rooted : Scans setting dialect (.word "FROM" :: .space ::
      tableTokens statement.root) :=
    .append (.inl rfl) (.word (by decide +kernel)) (scans_tableTokens statement.root)
  have tested : Scans setting dialect (.word "WHERE" :: .space ::
      statement.test.tokens dialect) :=
    .append (.inl rfl) (.word (by decide +kernel)) statement.test.scans_tokens
  have joined := (selected.append (.inl rfl) rooted).append_led
    (led_flatMap_joinTokens statement.joins) (scans_flatMap_joinTokens statement.joins)
  have filtered := joined.append (.inl rfl) tested
  exact scans_append_countTokens
    (scans_append_countTokens
      (scans_append_listTokens
        (scans_append_listTokens filtered (by decide +kernel) groups)
        (by decide +kernel) orders)
      (by decide +kernel) statement.limit)
    (by decide +kernel) statement.offset

/-- The text of a statement is split into the tokens that it has been written from. -/
theorem scan_text
    (setting : Bool)
    (dialect : Dialect)
    (statement : Statement) :
    scan setting dialect (statement.text dialect) =
      some ((statement.tokens dialect).map (Token.spelled setting dialect)) :=
  scan_textOf statement.scans_tokens

end Statement

end Sql
end DomainSql
