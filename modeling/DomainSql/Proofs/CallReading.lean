import DomainSql.Proofs.StatementScanning
import DomainSql.Proofs.TruthValues

/-!
# Reading calls in SQL text

A reader of SQL finds a call where a parenthesis opens right behind a word. The
arguments of the call go up to the parenthesis that closes this one, and they are
divided by the commas that stand in no other parentheses. Nothing is known to the reader
about terms, predicates or statements, and it does not look into texts.

A term is read as one argument wherever it stands, since it closes what it opens. So the
reader finds in a call the terms that it has been written from, and in the text of a
statement the calls of its columns, its conditions, its groups and its orders, one after
the other.
-/

namespace DomainSql
namespace Sql

/-! ## The reader -/

/-- What a text shows of a call: the word in front of the parenthesis, and the tokens of
each argument. -/
structure ShownCall (Text : Type := String) where
  word : String
  arguments : List (List (Token Text))
  deriving DecidableEq

namespace Token

section Reader

variable {Text : Type} [DecidableEq Text]

/-- An argument without the spaces in front of it, from what has been read of it, the
last token first. -/
def argumentOf (read : List (Token Text)) : List (Token Text) :=
  read.reverse.dropWhile (· = .space)

/-- The arguments up to the parenthesis that closes the one in front of them. `depth`
counts the parentheses that have been opened since and are not closed yet, and `read` is
what has been read of the argument, the last token first. -/
def argumentsFrom
    (depth : Nat)
    (read : List (Token Text)) : List (Token Text) → Option (List (List (Token Text)))
  | [] => none
  | token :: rest =>
      if token = .symbol "(" then argumentsFrom (depth + 1) (token :: read) rest
      else if 0 < depth then
        argumentsFrom (if token = .symbol ")" then depth - 1 else depth)
          (token :: read) rest
      else if token = .symbol ")" then some [argumentOf read]
      else if token = .symbol "," then
        (argumentsFrom 0 [] rest).map (argumentOf read :: ·)
      else argumentsFrom 0 (token :: read) rest

/-- The arguments between the parentheses that tokens begin with, if they do. Where
nothing stands between the parentheses, there is no argument. -/
def arguments? : List (Token Text) → Option (List (List (Token Text)))
  | [] => none
  | token :: rest =>
      if token = .symbol "(" then
        (argumentsFrom 0 [] rest).map fun found => if found = [[]] then [] else found
      else none

/-- The calls in tokens, in the order in which they begin. The change to lower case,
which stands around the values of a comparison, is no call of a function. -/
def calls : List (Token Text) → List (ShownCall Text)
  | [] => []
  | .word spelling :: rest =>
      (if spelling = "LOWER" then none
        else (arguments? rest).map (ShownCall.mk spelling)).toList ++ calls rest
  | _ :: rest => calls rest

end Reader
end Token

/-- The calls in a text, if it consists of tokens. -/
def callsIn
    (setting : Bool)
    (dialect : Dialect)
    (text : String) : Option (List (ShownCall Spelling)) :=
  (scan setting dialect text).map Token.calls

/-! ## Texts are not looked into -/

/-- A call with something else in the places of texts. -/
def ShownCall.mapText
    {Text Other : Type}
    (change : Text → Other)
    (call : ShownCall Text) : ShownCall Other :=
  ⟨call.word, call.arguments.map (List.map (Token.mapText change))⟩

/-- A call as the library writes it, every text by its spelling. -/
def ShownCall.spelled
    (setting : Bool)
    (dialect : Dialect) : ShownCall → ShownCall Spelling :=
  mapText (Spelling.ofText setting dialect)

namespace Token

variable {Text Other : Type} (change : Text → Other)

@[simp] theorem mapText_eq_symbol_iff
    {token : Token Text}
    {spelling : String} :
    token.mapText change = .symbol spelling ↔ token = .symbol spelling := by
  cases token <;> simp [mapText]

@[simp] theorem mapText_eq_space_iff
    {token : Token Text} :
    token.mapText change = .space ↔ token = .space := by
  cases token <;> simp [mapText]

variable [DecidableEq Text] [DecidableEq Other]

theorem argumentOf_map (read : List (Token Text)) :
    argumentOf (read.map (mapText change)) = (argumentOf read).map (mapText change) := by
  rw [argumentOf, argumentOf, ← List.map_reverse, List.dropWhile_map]
  simp [Function.comp_def]

theorem argumentsFrom_map
    (depth : Nat)
    (read tokens : List (Token Text)) :
    argumentsFrom depth (read.map (mapText change)) (tokens.map (mapText change)) =
      (argumentsFrom depth read tokens).map (List.map (List.map (mapText change))) := by
  induction tokens generalizing depth read with
  | nil => rfl
  | cons token rest inductionHypothesis =>
      have shifted := fun depth => inductionHypothesis depth (token :: read)
      have restart := inductionHypothesis 0 []
      simp only [List.map_cons, List.map_nil] at shifted restart
      rw [List.map_cons, argumentsFrom, argumentsFrom]
      simp only [mapText_eq_symbol_iff, shifted, restart, argumentOf_map]
      split_ifs <;> simp [Function.comp_def]

theorem arguments?_map (tokens : List (Token Text)) :
    arguments? (tokens.map (mapText change)) =
      (arguments? tokens).map (List.map (List.map (mapText change))) := by
  cases tokens with
  | nil => rfl
  | cons token rest =>
      have found := argumentsFrom_map change 0 [] rest
      have empty : ∀ lists : List (List (Token Text)),
          lists.map (List.map (mapText change)) = [[]] ↔ lists = [[]] := by
        intro lists
        simp [List.map_eq_cons_iff]
      rw [List.map_nil] at found
      rw [List.map_cons, arguments?, arguments?]
      simp only [mapText_eq_symbol_iff, found]
      split_ifs
      · rw [Option.map_map, Option.map_map]
        congr 1
        funext lists
        by_cases none : lists = [[]]
        · simp [none]
        · simp [empty, none]
      · rfl

/-- With something else in the places of texts, tokens have the calls that they had, with
something else in the places of texts. -/
theorem calls_map (tokens : List (Token Text)) :
    calls (tokens.map (mapText change)) = (calls tokens).map (ShownCall.mapText change) := by
  induction tokens with
  | nil => rfl
  | cons token rest inductionHypothesis =>
      cases token with
      | word spelling =>
          rw [List.map_cons, mapText, calls, calls, arguments?_map, inductionHypothesis,
            List.map_append]
          split_ifs
          · rfl
          · cases arguments? rest <;> rfl
      | _ => exact inductionHypothesis

end Token

/-! ## Arguments -/

namespace Token

/-- Tokens that are read as an argument as a whole: they begin with a token that is no
space, they close the parentheses that they open, and their commas stand in
parentheses. -/
structure IsArgument (tokens : List Token) : Prop where
  begins : ∃ token ∈ tokens.head?, token ≠ .space
  passes : ∀ depth read rest,
    argumentsFrom depth read (tokens ++ rest) =
      argumentsFrom depth (tokens.reverse ++ read) rest

/-- Tokens that are read within parentheses as a whole. -/
def Nests (tokens : List Token) : Prop :=
  ∀ depth read rest,
    argumentsFrom (depth + 1) read (tokens ++ rest) =
      argumentsFrom (depth + 1) (tokens.reverse ++ read) rest

/-- The token neither opens nor closes an argument, and divides none. -/
def IsPlain (token : Token) : Prop :=
  token ≠ .symbol "(" ∧ token ≠ .symbol ")" ∧ token ≠ .symbol ","

theorem argumentsFrom_plain
    {token : Token}
    (plain : token.IsPlain)
    (depth : Nat)
    (read rest : List Token) :
    argumentsFrom depth read (token :: rest) =
      argumentsFrom depth (token :: read) rest := by
  obtain ⟨notOpening, notClosing, notComma⟩ := plain
  rw [argumentsFrom, if_neg notOpening]
  cases depth with
  | zero => simp [notClosing, notComma]
  | succ depth => simp [notClosing]

namespace Nests

variable {tokens others : List Token}

theorem nil : Nests [] := fun _ _ _ => rfl

theorem append
    (nests : Nests tokens)
    (othersNest : Nests others) :
    Nests (tokens ++ others) := by
  intro depth read rest
  rw [List.append_assoc, nests, othersNest, List.reverse_append, List.append_assoc]

theorem single
    {token : Token}
    (neither : token ≠ .symbol "(" ∧ token ≠ .symbol ")") :
    Nests [token] := by
  intro depth read rest
  rw [List.singleton_append, argumentsFrom, if_neg neither.1]
  simp [neither.2]

theorem listed :
    ∀ {lists : List (List Token)}, (∀ tokens ∈ lists, Nests tokens) →
      Nests (Token.listed lists)
  | [], _ => nil
  | [tokens], each => each tokens (List.mem_singleton_self tokens)
  | first :: second :: rest, each => by
      obtain ⟨firstNests, others⟩ := List.forall_mem_cons.mp each
      exact firstNests.append
        ((single (by decide)).append ((single (by decide)).append (listed others)))

end Nests

namespace IsArgument

variable {tokens others : List Token}

theorem nests (isArgument : IsArgument tokens) : Nests tokens :=
  fun depth => isArgument.passes (depth + 1)

theorem of_plain
    {token : Token}
    (notSpace : token ≠ .space)
    (plain : token.IsPlain) :
    IsArgument [token] where
  begins := ⟨token, rfl, notSpace⟩
  passes := argumentsFrom_plain plain

theorem append
    (isArgument : IsArgument tokens)
    (othersAre : IsArgument others) :
    IsArgument (tokens ++ others) where
  begins := by
    obtain ⟨token, isFirst, notSpace⟩ := isArgument.begins
    exact ⟨token, List.mem_head?_append_of_mem_head? isFirst, notSpace⟩
  passes := by
    intro depth read rest
    rw [List.append_assoc, isArgument.passes, othersAre.passes, List.reverse_append,
      List.append_assoc]

theorem cons
    {token : Token}
    (notSpace : token ≠ .space)
    (plain : token.IsPlain)
    (isArgument : IsArgument tokens) :
    IsArgument (token :: tokens) :=
  (of_plain notSpace plain).append isArgument

/-- What is read within parentheses is read as an argument between them. -/
theorem parenthesized (nests : Nests tokens) : IsArgument (Token.parenthesized tokens) where
  begins := ⟨.symbol "(", rfl, by decide⟩
  passes := by
    intro depth read rest
    have closed : argumentsFrom (depth + 1) (tokens.reverse ++ .symbol "(" :: read)
        (.symbol ")" :: rest) =
          argumentsFrom depth (.symbol ")" :: (tokens.reverse ++ .symbol "(" :: read))
            rest := by
      rw [argumentsFrom]
      simp
    rw [Token.parenthesized, List.cons_append, List.cons_append, argumentsFrom, if_pos rfl,
      List.append_assoc, nests, List.singleton_append, closed]
    simp

/-- The spaces in front of an argument do not belong to it. -/
theorem argumentOf_eq
    (isArgument : IsArgument tokens)
    {spaces : List Token}
    (blank : ∀ token ∈ spaces, token = .space) :
    argumentOf (tokens.reverse ++ spaces) = tokens := by
  obtain ⟨token, isFirst, notSpace⟩ := isArgument.begins
  obtain ⟨rest, rfl⟩ := List.head?_eq_some_iff.mp isFirst
  rw [argumentOf, List.reverse_append, List.reverse_reverse,
    List.dropWhile_append_of_pos (by simpa using blank),
    List.dropWhile_cons_of_neg (by simpa using notSpace)]

end IsArgument

/-- Arguments that have been written with commas between them are read back one by
one. -/
theorem argumentsFrom_listed
    {first : List Token}
    {others : List (List Token)}
    (each : ∀ tokens ∈ first :: others, IsArgument tokens)
    {spaces : List Token}
    (blank : ∀ token ∈ spaces, token = .space)
    (rest : List Token) :
    argumentsFrom 0 spaces (listed (first :: others) ++ .symbol ")" :: rest) =
      some (first :: others) := by
  obtain ⟨isArgument, othersAre⟩ := List.forall_mem_cons.mp each
  induction others generalizing first spaces with
  | nil =>
      rw [listed, isArgument.passes, argumentsFrom]
      simp [isArgument.argumentOf_eq blank]
  | cons second others inductionHypothesis =>
      obtain ⟨secondIs, restAre⟩ := List.forall_mem_cons.mp othersAre
      have othersRead : argumentsFrom 0 []
          (.space :: (listed (second :: others) ++ .symbol ")" :: rest)) =
            some (second :: others) := by
        rw [argumentsFrom_plain (by simp [IsPlain])]
        exact inductionHypothesis othersAre (by simp) secondIs restAre
      rw [listed, List.append_assoc, List.cons_append, List.cons_append,
        isArgument.passes, argumentsFrom]
      · simp [isArgument.argumentOf_eq blank, othersRead]
      · exact nofun

/-- The arguments between parentheses are those that have been written there. -/
theorem arguments?_parenthesized
    {lists : List (List Token)}
    (each : ∀ tokens ∈ lists, IsArgument tokens)
    (rest : List Token) :
    arguments? (parenthesized (listed lists) ++ rest) = some lists := by
  rw [parenthesized, List.cons_append, List.cons_append, arguments?, if_pos rfl,
    List.append_assoc, List.singleton_append]
  cases lists with
  | nil => rfl
  | cons first others =>
      rw [argumentsFrom_listed each (by simp)]
      have notEmpty : first :: others ≠ [[]] := by
        rintro ⟨⟩
        simpa using (each [] List.mem_cons_self).begins
      simp [notEmpty]

/-! ## Calls in tokens -/

/-- These are the calls in tokens, whatever stands behind them but an opened
parenthesis. -/
def HasCalls
    (tokens : List Token)
    (found : List ShownCall) : Prop :=
  ∀ rest, rest.head? ≠ some (.symbol "(") → calls (tokens ++ rest) = found ++ calls rest

namespace HasCalls

variable {tokens front back : List Token} {found frontFound backFound : List ShownCall}

theorem calls_eq (hasCalls : HasCalls tokens found) : calls tokens = found := by
  simpa [calls] using hasCalls [] nofun

/-- Tokens have the calls that are found in them. -/
theorem found_in (hasCalls : HasCalls tokens found) : HasCalls tokens (calls tokens) := by
  rwa [hasCalls.calls_eq]

theorem nil : HasCalls [] [] := fun _ _ => rfl

/-- No call begins with a token that is no word. -/
theorem behind
    {token : Token}
    (noWord : ∀ spelling, token ≠ .word spelling)
    (hasCalls : HasCalls tokens found) :
    HasCalls (token :: tokens) found := by
  intro rest apart
  rw [List.cons_append, calls, hasCalls rest apart]
  exact fun spelling => noWord spelling

theorem single
    {token : Token}
    (noWord : ∀ spelling, token ≠ .word spelling) :
    HasCalls [token] [] :=
  nil.behind noWord

theorem word (spelling : String) : HasCalls [.word spelling] [] := by
  intro rest apart
  have noArguments : arguments? rest = none := by
    cases rest with
    | nil => rfl
    | cons token rest => exact if_neg fun isOpening => apart (congrArg some isOpening)
  rw [List.singleton_append, calls, noArguments]
  split <;> rfl

theorem append
    (hasCalls : HasCalls front frontFound)
    (apart : back.head? ≠ some (.symbol "("))
    (others : HasCalls back backFound) :
    HasCalls (front ++ back) (frontFound ++ backFound) := by
  intro rest restApart
  have behindFront : (back ++ rest).head? ≠ some (.symbol "(") := by
    cases back with
    | nil => exact restApart
    | cons token back => exact apart
  rw [List.append_assoc, hasCalls _ behindFront, others rest restApart, List.append_assoc]

/-- Tokens behind a space. -/
theorem spaced
    (hasCalls : HasCalls front frontFound)
    (others : HasCalls back backFound) :
    HasCalls (front ++ .space :: back) (frontFound ++ backFound) :=
  hasCalls.append nofun (others.behind nofun)

theorem parenthesized
    (hasCalls : HasCalls tokens found) :
    HasCalls (Token.parenthesized tokens) found := by
  have closed : HasCalls [.symbol ")"] [] := single (by simp)
  rw [Token.parenthesized, ← List.append_nil found]
  exact (hasCalls.append (by simp) closed).behind (by simp)

theorem listed :
    ∀ {lists : List (List Token)}, (∀ tokens ∈ lists, HasCalls tokens (calls tokens)) →
      HasCalls (Token.listed lists) (lists.flatMap calls)
  | [], _ => nil
  | [tokens], each => by
      rw [List.flatMap_singleton]
      exact each tokens (List.mem_singleton_self tokens)
  | first :: second :: rest, each => by
      obtain ⟨hasCalls, others⟩ := List.forall_mem_cons.mp each
      exact hasCalls.append (by simp) (((listed others).behind (by simp)).behind (by simp))

theorem phrase : ∀ words : List String, HasCalls (Token.phrase words) []
  | [] => nil
  | [spelling] => word spelling
  | first :: second :: rest => (word first).spaced (phrase (second :: rest))

/-- A call is found with the arguments that have been written between its parentheses,
and then the calls in its arguments. -/
theorem call
    (spelling : String)
    {lists : List (List Token)}
    (each : ∀ tokens ∈ lists, IsArgument tokens)
    (eachHas : ∀ tokens ∈ lists, HasCalls tokens (calls tokens)) :
    HasCalls (.word spelling :: Token.parenthesized (Token.listed lists))
      ((if spelling = "LOWER" then [] else [⟨spelling, lists⟩]) ++ lists.flatMap calls) := by
  intro rest apart
  rw [List.cons_append, calls, arguments?_parenthesized each,
    (listed eachHas).parenthesized rest apart]
  split <;> simp

end HasCalls
end Token

/-! ## Terms -/

mutual

theorem isArgument_literalTokens :
    ∀ value : Literal, Token.IsArgument (literalTokens value)
  | .null => .of_plain nofun ⟨nofun, nofun, nofun⟩
  | .bool true => .of_plain nofun ⟨nofun, nofun, nofun⟩
  | .bool false => .of_plain nofun ⟨nofun, nofun, nofun⟩
  | .int _ => .of_plain nofun ⟨nofun, nofun, nofun⟩
  | .float _ => .of_plain nofun ⟨nofun, nofun, nofun⟩
  | .text _ => .of_plain nofun ⟨nofun, nofun, nofun⟩
  | .list items => by
      rw [literalTokens]
      exact .parenthesized (.listed fun tokens inItems =>
        (isArgument_literalTokensOf items tokens inItems).nests)

theorem isArgument_literalTokensOf :
    ∀ items : List Literal, ∀ tokens ∈ literalTokensOf items, Token.IsArgument tokens
  | [] => by simp [literalTokensOf]
  | item :: rest => by
      rw [literalTokensOf, List.forall_mem_cons]
      exact ⟨isArgument_literalTokens item, isArgument_literalTokensOf rest⟩

end

mutual

/-- There are no calls in a literal. -/
theorem hasCalls_literalTokens :
    ∀ value : Literal, Token.HasCalls (literalTokens value) []
  | .null => .word _
  | .bool true => .word _
  | .bool false => .word _
  | .int _ => .single nofun
  | .float _ => .single nofun
  | .text _ => .single nofun
  | .list items => by
      have each := hasCalls_literalTokensOf items
      have none : (literalTokensOf items).flatMap Token.calls = [] :=
        List.flatMap_eq_nil_iff.mpr fun tokens inItems => (each tokens inItems).calls_eq
      rw [literalTokens, ← none]
      exact .parenthesized (.listed fun tokens inItems => (each tokens inItems).found_in)

theorem hasCalls_literalTokensOf :
    ∀ items : List Literal, ∀ tokens ∈ literalTokensOf items, Token.HasCalls tokens []
  | [] => by simp [literalTokensOf]
  | item :: rest => by
      rw [literalTokensOf, List.forall_mem_cons]
      exact ⟨hasCalls_literalTokens item, hasCalls_literalTokensOf rest⟩

end

namespace Term

/-- The calls in a term. -/
def shownCalls
    (dialect : Dialect)
    (term : Term) : List ShownCall :=
  Token.calls (term.tokens dialect)

variable (dialect : Dialect)

theorem tokensOf_eq_map (terms : List Term) :
    tokensOf dialect terms = terms.map (tokens dialect) := by
  induction terms with
  | nil => rfl
  | cons term rest inductionHypothesis =>
      rw [tokensOf, inductionHypothesis, List.map_cons]

mutual

/-- A term is read as one argument. -/
theorem isArgument_tokens :
    ∀ term : Term, Token.IsArgument (term.tokens dialect)
  | .column table name => by
      have plainName : Token.IsArgument [.name name] :=
        .of_plain nofun ⟨nofun, nofun, nofun⟩
      rw [tokens]
      exact .cons nofun ⟨nofun, nofun, nofun⟩
        (.cons nofun (by simp [Token.IsPlain]) plainName)
  | .everything => by
      rw [tokens]
      exact .of_plain nofun (by simp [Token.IsPlain])
  | .literal value => by
      rw [tokens]
      exact isArgument_literalTokens value
  | .call callee arguments => by
      rw [tokens]
      exact .cons nofun ⟨nofun, nofun, nofun⟩
        (.parenthesized (.listed fun tokens inArguments =>
          (isArgument_tokensOf arguments tokens inArguments).nests))

theorem isArgument_tokensOf :
    ∀ terms : List Term, ∀ tokens ∈ tokensOf dialect terms, Token.IsArgument tokens
  | [] => by simp [tokensOf]
  | term :: rest => by
      rw [tokensOf, List.forall_mem_cons]
      exact ⟨isArgument_tokens term, isArgument_tokensOf rest⟩

end

mutual

theorem hasCalls_tokens :
    ∀ term : Term, Token.HasCalls (term.tokens dialect) (term.shownCalls dialect)
  | .column table name => by
      have none : Token.HasCalls ((column table name).tokens dialect) [] := by
        rw [tokens]
        exact ((Token.HasCalls.single (by simp)).behind (by simp)).behind (by simp)
      exact none.found_in
  | .everything => by
      have none : Token.HasCalls (everything.tokens dialect) [] := by
        rw [tokens]
        exact .single (by simp)
      exact none.found_in
  | .literal value => by
      rw [shownCalls, tokens]
      exact (hasCalls_literalTokens value).found_in
  | .call callee arguments => by
      rw [shownCalls, tokens]
      exact (Token.HasCalls.call (callee.word dialect) (isArgument_tokensOf dialect arguments)
        (hasCalls_tokensOf arguments)).found_in

theorem hasCalls_tokensOf :
    ∀ terms : List Term, ∀ tokens ∈ tokensOf dialect terms,
      Token.HasCalls tokens (Token.calls tokens)
  | [] => by simp [tokensOf]
  | term :: rest => by
      rw [tokensOf, List.forall_mem_cons]
      exact ⟨hasCalls_tokens term, hasCalls_tokensOf rest⟩

end

theorem flatMap_calls_tokensOf (terms : List Term) :
    (tokensOf dialect terms).flatMap Token.calls =
      terms.flatMap (shownCalls dialect) := by
  rw [tokensOf_eq_map, List.flatMap_map]
  rfl

theorem shownCalls_call
    (callee : Callee)
    (arguments : List Term) :
    (call callee arguments).shownCalls dialect =
      (if callee.word dialect = "LOWER" then []
        else [⟨callee.word dialect, arguments.map (tokens dialect)⟩])
        ++ arguments.flatMap (shownCalls dialect) := by
  have hasCalls := Token.HasCalls.call (callee.word dialect)
    (isArgument_tokensOf dialect arguments) (hasCalls_tokensOf dialect arguments)
  rw [shownCalls, tokens, hasCalls.calls_eq, flatMap_calls_tokensOf, tokensOf_eq_map]

/-- A call of a function is found with its arguments one by one, and then the calls in
its arguments. -/
theorem shownCalls_function
    (name : FunctionName)
    (arguments : List Term) :
    (call (.function name) arguments).shownCalls dialect =
      ⟨(Callee.function name).word dialect, arguments.map (tokens dialect)⟩
        :: arguments.flatMap (shownCalls dialect) := by
  have notLower : (Callee.function name).word dialect ≠ "LOWER" := by
    cases name <;> cases dialect <;> decide
  rw [shownCalls_call, if_neg notLower, List.singleton_append]

theorem shownCalls_lower (arguments : List Term) :
    (call .lower arguments).shownCalls dialect =
      arguments.flatMap (shownCalls dialect) := by
  have isLower : Callee.lower.word dialect = "LOWER" := rfl
  rw [shownCalls_call, if_pos isLower, List.nil_append]

@[simp] theorem shownCalls_column (table name : String) :
    (column table name).shownCalls dialect = [] := by
  simp [shownCalls, tokens, Token.calls]

@[simp] theorem shownCalls_everything : everything.shownCalls dialect = [] := by
  simp [shownCalls, tokens, Token.calls]

@[simp] theorem shownCalls_literal (value : Literal) :
    (literal value).shownCalls dialect = [] := by
  rw [shownCalls, tokens, (hasCalls_literalTokens value).calls_eq]

end Term

/-! ## Predicates and tests -/

theorem Operator.hasCalls_tokens (operator : Operator) :
    Token.HasCalls operator.tokens [] := by
  cases operator with
  | like => exact .word _
  | notLike => exact .phrase _
  | ilike => exact .word _
  | notIlike => exact .phrase _
  | _ => exact .single (by simp)

namespace Predicate

/-- The terms that the text of a predicate shows, from left to right. Membership in the
empty list shows none. -/
def terms : Predicate → List Term
  | .compare left _ right => [left, right]
  | .member _ _ [] => []
  | .member left _ items => left :: items
  | .isNull left _ => [left]

/-- The calls in a predicate. -/
def shownCalls
    (dialect : Dialect)
    (predicate : Predicate) : List ShownCall :=
  Token.calls (predicate.tokens dialect)

/-- The calls in a predicate are those in its terms. -/
theorem hasCalls_terms
    (dialect : Dialect)
    (predicate : Predicate) :
    Token.HasCalls (predicate.tokens dialect)
      (predicate.terms.flatMap (Term.shownCalls dialect)) := by
  cases predicate with
  | compare left operator right =>
      have sides := ((left.hasCalls_tokens dialect).spaced operator.hasCalls_tokens).spaced
        (right.hasCalls_tokens dialect)
      simpa [terms, tokens] using sides
  | member left negated items =>
      cases items with
      | nil =>
          have number : ∀ spelling, Token.HasCalls [.number spelling] [] :=
            fun _ => .single (by simp)
          have equal : Token.HasCalls [.symbol "="] [] :=
            .single (by simp)
          exact (number "1").spaced (equal.spaced (number _))
      | cons item rest =>
          have listed := Token.HasCalls.listed (Term.hasCalls_tokensOf dialect (item :: rest))
          have sides := ((left.hasCalls_tokens dialect).spaced
            (Token.HasCalls.phrase (if negated then ["NOT", "IN"] else ["IN"]))).spaced
              listed.parenthesized
          rw [Term.flatMap_calls_tokensOf, List.append_nil] at sides
          exact sides
  | isNull left negated =>
      have side := (left.hasCalls_tokens dialect).spaced
        (Token.HasCalls.phrase (if negated then ["IS", "NOT", "NULL"] else ["IS", "NULL"]))
      simpa [terms, tokens] using side

theorem hasCalls_tokens
    (dialect : Dialect)
    (predicate : Predicate) :
    Token.HasCalls (predicate.tokens dialect) (predicate.shownCalls dialect) :=
  (predicate.hasCalls_terms dialect).found_in

end Predicate

namespace Test

theorem hasCalls_enclosed
    (bare : Bool)
    {tokens : List Token}
    {found : List ShownCall}
    (hasCalls : Token.HasCalls tokens found) :
    Token.HasCalls (enclosed bare tokens) found := by
  cases bare with
  | false => exact hasCalls.parenthesized
  | true => exact hasCalls

/-- The calls in a test are those in its predicates. -/
theorem hasCalls_tokens
    (dialect : Dialect)
    (test : Test) :
    Token.HasCalls (test.tokens dialect)
      (test.predicates.flatMap (Predicate.shownCalls dialect)) := by
  induction test with
  | truth value => cases value <;> exact .word _
  | predicate inner =>
      rw [predicates, List.flatMap_singleton]
      exact inner.hasCalls_tokens dialect
  | combine junction left right leftHas rightHas =>
      have word : Token.HasCalls [.word (junctionWord junction)] [] := .word _
      rw [predicates, List.flatMap_append]
      exact (hasCalls_enclosed _ leftHas).spaced (word.spaced (hasCalls_enclosed _ rightHas))
  | not inner innerHas =>
      have word : Token.HasCalls [.word "NOT"] [] := .word _
      exact word.spaced (hasCalls_enclosed _ innerHas)

end Test

/-! ## Statements -/

/-- The calls in a column of the answer. -/
def OutputColumn.shownCalls
    (dialect : Dialect)
    (column : OutputColumn) : List ShownCall :=
  Token.calls (column.tokens dialect)

/-- The calls in an order. -/
def Ordering.shownCalls
    (dialect : Dialect)
    (ordering : Ordering) : List ShownCall :=
  Token.calls (ordering.tokens dialect)

theorem Token.hasCalls_name (content : String) : Token.HasCalls [.name content] [] :=
  .single (by simp)

/-- A name behind another one and a point. -/
theorem Token.hasCalls_qualified (table name : String) :
    Token.HasCalls [.name table, .symbol ".", .name name] [] :=
  ((Token.hasCalls_name name).behind (by simp)).behind (by simp)

/-- The calls in a column of the answer are those in its term. -/
theorem OutputColumn.hasCalls_term
    (dialect : Dialect)
    (value : Term)
    (name : String) :
    Token.HasCalls ((term value name).tokens dialect) (value.shownCalls dialect) := by
  have word : Token.HasCalls [.word "AS"] [] := .word _
  have named := (value.hasCalls_tokens dialect).spaced (word.spaced (Token.hasCalls_name name))
  rw [List.append_nil, List.append_nil] at named
  exact named

theorem OutputColumn.hasCalls_tokens
    (dialect : Dialect)
    (column : OutputColumn) :
    Token.HasCalls (column.tokens dialect) (column.shownCalls dialect) := by
  have star : Token.HasCalls [.symbol "*"] [] := .single (by simp)
  cases column with
  | everything => exact star.found_in
  | everythingOf table => exact ((star.behind (by simp)).behind (by simp)).found_in
  | term value name => exact (hasCalls_term dialect value name).found_in

theorem Ordering.hasCalls_tokens
    (dialect : Dialect)
    (ordering : Ordering) :
    Token.HasCalls (ordering.tokens dialect) (ordering.shownCalls dialect) := by
  have word : Token.HasCalls [.word (directionWord ordering.direction)] [] := .word _
  have term := ordering.term.hasCalls_tokens dialect
  have sorted := term.spaced word
  rw [shownCalls, tokens]
  split
  · exact sorted.found_in
  · split
    · exact ((term.spaced (.phrase _)).append (by simp)
        ((sorted.behind (by simp)).behind (by simp))).found_in
    · exact (sorted.spaced (.phrase _)).found_in

namespace Statement

theorem hasCalls_tableTokens (table : Table) : Token.HasCalls (tableTokens table) [] := by
  have word : Token.HasCalls [.word "AS"] [] := .word _
  exact (Token.hasCalls_name table.name).spaced
    (word.spaced (Token.hasCalls_name table.aliasName))

theorem hasCalls_joinTokens (join : Join) : Token.HasCalls (joinTokens join) [] := by
  have word : Token.HasCalls [.word "ON"] [] := .word _
  have equal : Token.HasCalls [.symbol "="] [] := .single (by simp)
  have condition := word.spaced ((Token.hasCalls_qualified join.left.aliasName
    join.leftColumn).spaced (equal.spaced
      (Token.hasCalls_qualified join.right.aliasName join.rightColumn)))
  have joined := (Token.HasCalls.phrase (joinWords join.kind.form)).behind
    (show ∀ spelling, Token.space ≠ .word spelling by simp)
  exact (joined.spaced (hasCalls_tableTokens join.right)).spaced condition

theorem hasCalls_append_joinTokens
    {front : List Token}
    {found : List ShownCall}
    (hasCalls : Token.HasCalls front found)
    (joins : List Join) :
    Token.HasCalls (front ++ joins.flatMap joinTokens) found := by
  induction joins generalizing front with
  | nil =>
      rw [List.flatMap_nil, List.append_nil]
      exact hasCalls
  | cons join rest inductionHypothesis =>
      rw [List.flatMap_cons, ← List.append_assoc]
      refine inductionHypothesis ?_
      rw [← List.append_nil found]
      exact hasCalls.append (by simp [joinTokens]) (hasCalls_joinTokens join)

theorem hasCalls_append_listTokens
    {front : List Token}
    {found : List ShownCall}
    (hasCalls : Token.HasCalls front found)
    (words : List String)
    {entries : List (List Token)}
    (each : ∀ tokens ∈ entries, Token.HasCalls tokens (Token.calls tokens)) :
    Token.HasCalls (front ++ listTokens words entries)
      (found ++ entries.flatMap Token.calls) := by
  rw [listTokens]
  split
  · rename_i empty
    rw [List.isEmpty_iff.mp empty, List.append_nil, List.flatMap_nil, List.append_nil]
    exact hasCalls
  · exact hasCalls.spaced ((Token.HasCalls.phrase words).spaced (.listed each))

theorem hasCalls_append_countTokens
    {front : List Token}
    {found : List ShownCall}
    (hasCalls : Token.HasCalls front found)
    (word : String)
    (count : Option Nat) :
    Token.HasCalls (front ++ countTokens word count) found := by
  cases count with
  | none =>
      rw [countTokens, List.append_nil]
      exact hasCalls
  | some count =>
      have number : Token.HasCalls [.number (Nat.repr count)] [] :=
        .single (by simp)
      have counted := hasCalls.spaced ((Token.HasCalls.word word).spaced number)
      rwa [List.append_nil, List.append_nil] at counted

/-- The calls in a statement are those in its columns, in its test, in its groups and in
its orders. -/
theorem hasCalls_tokens
    (dialect : Dialect)
    (statement : Statement) :
    Token.HasCalls (statement.tokens dialect)
      (statement.columns.flatMap (OutputColumn.shownCalls dialect)
        ++ statement.test.predicates.flatMap (Predicate.shownCalls dialect)
        ++ statement.groupBy.flatMap (Term.shownCalls dialect)
        ++ statement.orderBy.flatMap (Ordering.shownCalls dialect)) := by
  have columns : ∀ tokens ∈ statement.columns.map (OutputColumn.tokens dialect),
      Token.HasCalls tokens (Token.calls tokens) :=
    List.forall_mem_map.mpr fun column _ => column.hasCalls_tokens dialect
  have groups : ∀ tokens ∈ statement.groupBy.map (Term.tokens dialect),
      Token.HasCalls tokens (Token.calls tokens) :=
    List.forall_mem_map.mpr fun term _ => term.hasCalls_tokens dialect
  have orders : ∀ tokens ∈ statement.orderBy.map (Ordering.tokens dialect),
      Token.HasCalls tokens (Token.calls tokens) :=
    List.forall_mem_map.mpr fun ordering _ => ordering.hasCalls_tokens dialect
  have selected := (Token.HasCalls.word "SELECT").spaced (.listed columns)
  have rooted := (Token.HasCalls.word "FROM").spaced (hasCalls_tableTokens statement.root)
  have tested := (Token.HasCalls.word "WHERE").spaced (statement.test.hasCalls_tokens dialect)
  have filtered := (hasCalls_append_joinTokens (selected.spaced rooted)
    statement.joins).spaced tested
  have whole := hasCalls_append_countTokens (hasCalls_append_countTokens
    (hasCalls_append_listTokens (hasCalls_append_listTokens filtered ["GROUP", "BY"] groups)
      ["ORDER", "BY"] orders)
    "LIMIT" statement.limit) "OFFSET" statement.offset
  simp only [List.nil_append, List.append_nil, List.flatMap_map] at whole
  exact whole

/-- The text of a statement shows the calls of its columns, of the conditions of its
formula, of its groups and of its orders. -/
theorem callsIn_text
    (setting : Bool)
    (dialect : Dialect)
    {statement : Statement}
    {formula : Formula BoundCondition}
    (tests : statement.test = .ofFormula dialect formula) :
    callsIn setting dialect (statement.text dialect) =
      some ((statement.columns.flatMap (OutputColumn.shownCalls dialect)
        ++ formula.leaves.flatMap
          (Predicate.shownCalls dialect ∘ Predicate.ofCondition dialect)
        ++ statement.groupBy.flatMap (Term.shownCalls dialect)
        ++ statement.orderBy.flatMap (Ordering.shownCalls dialect)).map
          (ShownCall.spelled setting dialect)) := by
  have spelled := Token.calls_map (Spelling.ofText setting dialect) (statement.tokens dialect)
  rw [(hasCalls_tokens dialect statement).calls_eq, tests,
    (Test.expresses_ofFormula dialect formula).predicates_eq, List.flatMap_map] at spelled
  rw [callsIn, scan_text, Option.map_some]
  exact congrArg some spelled

example : callsIn false .sqlite
    ("SELECT COUNT(*) AS \"n\" FROM \"orders\" AS \"t0\" "
      ++ "WHERE LOWER(\"t0\".\"state\") LIKE LOWER(COALESCE('x, (y', (1, NULL)))") =
    some [⟨"COUNT", [[.symbol "*"]]⟩,
      ⟨"COALESCE", [[.text ⟨false, "x, (y".toList⟩],
        [.symbol "(", .number "1", .symbol ",", .space, .word "NULL", .symbol ")"]]⟩] := by
  decide +kernel

end Statement
end Sql
end DomainSql
