import DomainSql.Sql.Statement

/-!
# What the text of a statement shows

A quoted name ends at its quote, since every quote inside it is written twice. So the
text of a statement can be read from the front: behind the columns and the root table
it shows each of its joins, up to the alias of its left table and the form of its
kind, and then its test.
-/

namespace DomainSql

/-- What a statement shows of a join. -/
structure ShownJoin where
  form : JoinForm
  leftAlias : String
  right : Table
  leftColumn : String
  rightColumn : String
  deriving DecidableEq

namespace Join

/-- What a statement shows of a join. -/
def shown (join : Join) : ShownJoin where
  form := join.kind.form
  leftAlias := join.left.aliasName
  right := join.right
  leftColumn := join.leftColumn
  rightColumn := join.rightColumn

end Join

namespace Sql

/-! ## Names -/

theorem doubled_cons_self
    (quote : Char)
    (rest : List Char) :
    doubled quote (quote :: rest) = quote :: quote :: doubled quote rest := by
  simp [doubled]

theorem doubled_cons_of_ne
    {quote char : Char}
    (different : char ≠ quote)
    (rest : List Char) :
    doubled quote (char :: rest) = char :: doubled quote rest := by
  simp [doubled, different]

/-- A name with doubled quotes ends where a single quote follows. -/
theorem doubled_append_inj
    {quote : Char}
    {left right leftRest rightRest : List Char}
    (leftStops : leftRest.head? ≠ some quote)
    (rightStops : rightRest.head? ≠ some quote)
    (equal : doubled quote left ++ quote :: leftRest =
      doubled quote right ++ quote :: rightRest) :
    left = right ∧ leftRest = rightRest := by
  induction left generalizing right with
  | nil =>
      cases right with
      | nil => simpa [doubled] using equal
      | cons other others =>
          by_cases otherIsQuote : other = quote
          · rw [otherIsQuote, doubled_cons_self] at equal
            simp only [doubled, List.flatMap_nil, List.nil_append,
              List.cons_append, List.cons.injEq, true_and] at equal
            simp [equal] at leftStops
          · rw [doubled_cons_of_ne otherIsQuote] at equal
            exact absurd (List.cons.inj equal).1.symm otherIsQuote
  | cons char rest inductionHypothesis =>
      by_cases isQuote : char = quote
      · rw [isQuote, doubled_cons_self] at equal
        cases right with
        | nil =>
            simp only [doubled, List.flatMap_nil, List.nil_append,
              List.cons_append, List.cons.injEq, true_and] at equal
            simp [← equal] at rightStops
        | cons other others =>
            by_cases otherIsQuote : other = quote
            · rw [otherIsQuote, doubled_cons_self] at equal
              simp only [List.cons_append, List.cons.injEq, true_and] at equal
              obtain ⟨restEqual, stopsEqual⟩ := inductionHypothesis equal
              exact ⟨by rw [isQuote, otherIsQuote, restEqual], stopsEqual⟩
            · rw [doubled_cons_of_ne otherIsQuote] at equal
              exact absurd (List.cons.inj equal).1.symm otherIsQuote
      · rw [doubled_cons_of_ne isQuote] at equal
        cases right with
        | nil => exact absurd (List.cons.inj equal).1 isQuote
        | cons other others =>
            by_cases otherIsQuote : other = quote
            · rw [otherIsQuote, doubled_cons_self] at equal
              exact absurd (List.cons.inj equal).1 isQuote
            · rw [doubled_cons_of_ne otherIsQuote] at equal
              simp only [List.cons_append, List.cons.injEq] at equal
              obtain ⟨restEqual, stopsEqual⟩ := inductionHypothesis equal.2
              exact ⟨by rw [equal.1, restEqual], stopsEqual⟩

/-- A quoted name ends where no quote follows. -/
theorem quotedName_append_inj
    {dialect : Dialect}
    {left right : String}
    {leftRest rightRest : List Char}
    (leftStops : leftRest.head? ≠ some (nameQuote dialect))
    (rightStops : rightRest.head? ≠ some (nameQuote dialect))
    (equal : quotedName dialect left ++ leftRest =
      quotedName dialect right ++ rightRest) :
    left = right ∧ leftRest = rightRest := by
  simp only [quotedName, List.cons_append, List.append_assoc, List.nil_append,
    List.cons.injEq, true_and] at equal
  obtain ⟨same, restSame⟩ := doubled_append_inj leftStops rightStops equal
  exact ⟨String.toList_inj.mp same, restSame⟩

/-! ## Joins -/

namespace Token

@[simp] theorem charsOf_nil (dialect : Dialect) : charsOf dialect [] = [] := rfl

@[simp] theorem charsOf_cons
    (dialect : Dialect)
    (token : Token)
    (rest : List Token) :
    charsOf dialect (token :: rest) =
      token.chars dialect ++ charsOf dialect rest := rfl

@[simp] theorem charsOf_append
    (dialect : Dialect)
    (front back : List Token) :
    charsOf dialect (front ++ back) =
      charsOf dialect front ++ charsOf dialect back := by
  simp [charsOf]

end Token

namespace Statement

/-- The words of a join end where its table begins. -/
theorem joinWords_append_inj
    {dialect : Dialect}
    {form other : JoinForm}
    {rest otherRest : List Char}
    (equal : Token.charsOf dialect (Token.phrase (joinWords form)) ++ rest =
      Token.charsOf dialect (Token.phrase (joinWords other)) ++ otherRest) :
    form = other ∧ rest = otherRest := by
  cases form <;> cases other <;>
    simp_all [joinWords, Token.phrase, Token.chars]

/-- The characters of a join, the names of its tables and columns apart. -/
theorem charsOf_joinTokens
    (dialect : Dialect)
    (join : Join) :
    Token.charsOf dialect (joinTokens join) =
      ' ' :: (Token.charsOf dialect (Token.phrase (joinWords join.kind.form))
        ++ ' ' :: (quotedName dialect join.right.name
        ++ " AS ".toList ++ quotedName dialect join.right.aliasName
        ++ " ON ".toList ++ quotedName dialect join.left.aliasName
        ++ '.' :: (quotedName dialect join.leftColumn
        ++ " = ".toList ++ quotedName dialect join.right.aliasName
        ++ '.' :: quotedName dialect join.rightColumn))) := by
  simp [joinTokens, tableTokens, Token.chars]

/-- A join ends where no quote follows, and shows its form, its tables and its
columns. -/
theorem joinTokens_append_inj
    {dialect : Dialect}
    {join other : Join}
    {rest otherRest : List Char}
    (stops : rest.head? ≠ some (nameQuote dialect))
    (otherStops : otherRest.head? ≠ some (nameQuote dialect))
    (equal : Token.charsOf dialect (joinTokens join) ++ rest =
      Token.charsOf dialect (joinTokens other) ++ otherRest) :
    join.shown = other.shown ∧ rest = otherRest := by
  have space : some ' ' ≠ some (nameQuote dialect) := by cases dialect <;> decide
  have point : some '.' ≠ some (nameQuote dialect) := by cases dialect <;> decide
  simp only [charsOf_joinTokens, List.cons_append, List.append_assoc,
    List.cons.injEq, true_and] at equal
  obtain ⟨form, equal⟩ := joinWords_append_inj equal
  simp only [List.cons.injEq, true_and] at equal
  obtain ⟨name, equal⟩ := quotedName_append_inj
    (by simpa using space) (by simpa using space) equal
  simp only [List.append_cancel_left_eq] at equal
  obtain ⟨aliasName, equal⟩ := quotedName_append_inj
    (by simpa using space) (by simpa using space) equal
  simp only [List.append_cancel_left_eq] at equal
  obtain ⟨leftAlias, equal⟩ := quotedName_append_inj
    (by simpa using point) (by simpa using point) equal
  simp only [List.cons.injEq, true_and] at equal
  obtain ⟨leftColumn, equal⟩ := quotedName_append_inj
    (by simpa using space) (by simpa using space) equal
  simp only [List.append_cancel_left_eq] at equal
  obtain ⟨_, equal⟩ := quotedName_append_inj
    (by simpa using point) (by simpa using point) equal
  simp only [List.cons.injEq, true_and] at equal
  obtain ⟨rightColumn, equal⟩ := quotedName_append_inj stops otherStops equal
  have rightSame : join.right = other.right := by
    rcases tables : join.right with ⟨joinName, joinAlias⟩
    rcases others : other.right with ⟨otherName, otherAlias⟩
    simp_all
  exact ⟨by simp only [Join.shown, form, rightSame, leftAlias, leftColumn,
    rightColumn], equal⟩

/-- A join does not begin as a test does. -/
theorem charsOf_joinTokens_ne
    (dialect : Dialect)
    (join : Join)
    (rest otherRest : List Char) :
    Token.charsOf dialect (joinTokens join) ++ rest ≠ ' ' :: 'W' :: otherRest := by
  rw [charsOf_joinTokens]
  cases join.kind.form <;> simp [joinWords, Token.phrase, Token.chars]

/-- The joins of a statement end where its test begins. -/
theorem joins_append_inj
    {dialect : Dialect}
    {joins others : List Join}
    {rest otherRest : List Char}
    (equal : Token.charsOf dialect (joins.flatMap joinTokens)
        ++ ' ' :: 'W' :: rest =
      Token.charsOf dialect (others.flatMap joinTokens)
        ++ ' ' :: 'W' :: otherRest) :
    joins.map Join.shown = others.map Join.shown ∧ rest = otherRest := by
  have stops : ∀ (joins : List Join) (rest : List Char),
      (Token.charsOf dialect (joins.flatMap joinTokens)
        ++ ' ' :: 'W' :: rest).head? ≠ some (nameQuote dialect) := by
    intro joins rest
    cases joins with
    | nil => cases dialect <;> simp [nameQuote]
    | cons join others =>
        cases dialect <;> simp [charsOf_joinTokens, nameQuote]
  induction joins generalizing others with
  | nil =>
      cases others with
      | nil => simpa using equal
      | cons other others =>
          simp only [List.flatMap_nil, Token.charsOf_nil, List.nil_append,
            List.flatMap_cons, Token.charsOf_append, List.append_assoc] at equal
          exact absurd equal.symm (charsOf_joinTokens_ne _ _ _ _)
  | cons join joins inductionHypothesis =>
      cases others with
      | nil =>
          simp only [List.flatMap_nil, Token.charsOf_nil, List.nil_append,
            List.flatMap_cons, Token.charsOf_append, List.append_assoc] at equal
          exact absurd equal (charsOf_joinTokens_ne _ _ _ _)
      | cons other others =>
          simp only [List.flatMap_cons, Token.charsOf_append,
            List.append_assoc] at equal
          obtain ⟨same, equal⟩ :=
            joinTokens_append_inj (stops _ _) (stops _ _) equal
          obtain ⟨othersSame, restSame⟩ := inductionHypothesis equal
          exact ⟨by rw [List.map_cons, List.map_cons, same, othersSame], restSame⟩

/-! ## Statements -/

/-- Two statements with the same columns and the same root table and the same text
show the same joins, and the same characters behind the word in front of the test. -/
theorem text_inj
    {dialect : Dialect}
    {statement other : Statement}
    (columns : statement.columns = other.columns)
    (root : statement.root = other.root)
    (groupBy : statement.groupBy = other.groupBy)
    (orderBy : statement.orderBy = other.orderBy)
    (limit : statement.limit = other.limit)
    (offset : statement.offset = other.offset)
    (equal : statement.text dialect = other.text dialect) :
    statement.joins.map Join.shown = other.joins.map Join.shown ∧
      Token.charsOf dialect (statement.test.tokens dialect) =
        Token.charsOf dialect (other.test.tokens dialect) := by
  have chars : Token.charsOf dialect (statement.tokens dialect) =
      Token.charsOf dialect (other.tokens dialect) :=
    String.ofList_inj.mp equal
  simp only [tokens, Token.charsOf_append, columns, root, groupBy, orderBy, limit,
    offset, List.append_cancel_right_eq] at chars
  simp only [List.append_assoc, List.append_cancel_left_eq] at chars
  have split : ∀ test : Test,
      Token.charsOf dialect (.space :: .word "WHERE" :: .space ::
        test.tokens dialect) =
      ' ' :: 'W' :: ("HERE ".toList ++ Token.charsOf dialect (test.tokens dialect)) := by
    intro test
    simp [Token.chars]
  rw [split, split] at chars
  obtain ⟨joins, rest⟩ := joins_append_inj chars
  exact ⟨joins, List.append_cancel_left rest⟩

end Statement

end Sql
end DomainSql
