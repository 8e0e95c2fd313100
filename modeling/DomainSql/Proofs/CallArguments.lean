import DomainSql.Proofs.CallReading
import DomainSql.Proofs.StatementColumns

/-!
# The arguments of calls

How many arguments a call may have is checked when it is bound, and what is written of
them is decided when it is rendered: an aggregate is written with its first argument
only, and with everything if it has none. Both go by the function, and they fit: the
text shows one expression for each argument, in their order, and only a count can be
without arguments.
-/

namespace DomainSql

open Sql

/-- The expressions that a text shows for arguments whose fields have these answers: the
column of its answer for a field, by the alias of its table and its name, and the literal
itself for a literal. -/
inductive Argument.ShownWith :
    List Argument → List ResolvedField → List (List Token) → Prop
  | nil : ShownWith [] [] []
  | field
      (path : String)
      (answer : ResolvedField)
      {rest : List Argument}
      {answers : List ResolvedField}
      {expressions : List (List Token)}
      (others : ShownWith rest answers expressions) :
      ShownWith (.field path :: rest) (answer :: answers)
        ([.name answer.column.table.aliasName, .symbol ".", .name answer.column.name]
          :: expressions)
  | literal
      (value : Literal)
      {rest : List Argument}
      {answers : List ResolvedField}
      {expressions : List (List Token)}
      (others : ShownWith rest answers expressions) :
      ShownWith (.literal value :: rest) answers (literalTokens value :: expressions)

/-- There is one expression for each argument. -/
theorem Argument.ShownWith.length_eq
    {arguments : List Argument}
    {answers : List ResolvedField}
    {expressions : List (List Token)}
    (shownWith : ShownWith arguments answers expressions) :
    expressions.length = arguments.length := by
  induction shownWith with
  | nil => rfl
  | field path answer _ inductionHypothesis => simp [inductionHypothesis]
  | literal value _ inductionHypothesis => simp [inductionHypothesis]

/-- Bound arguments are written as the expressions of the arguments. -/
theorem Argument.BoundWith.shownWith
    {arguments : List Argument}
    {answers : List ResolvedField}
    {bound : List BoundArgument}
    (boundWith : BoundWith arguments answers bound)
    (dialect : Dialect) :
    ShownWith arguments answers
      ((bound.map Term.ofArgument).map (Term.tokens dialect)) := by
  induction boundWith with
  | nil => exact .nil
  | field path answer _ inductionHypothesis =>
      rw [List.map_cons, List.map_cons, Term.ofArgument, Term.ofColumn, Term.tokens]
      exact .field path answer inductionHypothesis
  | literal value _ inductionHypothesis =>
      rw [List.map_cons, List.map_cons, Term.ofArgument, Term.tokens]
      exact .literal value inductionHypothesis

theorem Argument.BoundWith.length_eq
    {arguments : List Argument}
    {answers : List ResolvedField}
    {bound : List BoundArgument}
    (boundWith : BoundWith arguments answers bound) :
    bound.length = arguments.length := by
  simpa using (boundWith.shownWith .postgres).length_eq

/-- Only a count takes no argument. -/
theorem FunctionName.eq_count_of_takes_zero
    {function : FunctionName}
    (takes : function.takes 0 = true) :
    function = .count := by
  cases function <;> simp_all [FunctionName.takes, FunctionName.isAggregate]

namespace Sql

/-- There are no calls within the arguments of a call. -/
theorem Term.flatMap_shownCalls_ofArgument
    (dialect : Dialect)
    (arguments : List BoundArgument) :
    (arguments.map ofArgument).flatMap (shownCalls dialect) = [] := by
  refine List.flatMap_eq_nil_iff.mpr (List.forall_mem_map.mpr fun argument _ => ?_)
  cases argument with
  | column bound => exact shownCalls_column dialect bound.table.aliasName bound.name
  | literal value => exact shownCalls_literal dialect value

/-- A call with as many arguments as its function takes is the only call in its text, and
shows all of them, or everything if there are none. -/
theorem Term.shownCalls_ofCall
    (dialect : Dialect)
    {call : BoundCall}
    (takes : call.function.takes call.arguments.length) :
    (ofCall call).shownCalls dialect =
      [⟨(Callee.function call.function).word dialect,
        if call.arguments = [] then [[.symbol "*"]]
        else (call.arguments.map ofArgument).map (tokens dialect)⟩] := by
  cases arguments : call.arguments with
  | nil =>
      have isCount : call.function = .count := by
        rw [arguments] at takes
        exact FunctionName.eq_count_of_takes_zero takes
      have written : ofCall call = .call (.function call.function) [.everything] := by
        simp [ofCall, arguments, isCount, FunctionName.isAggregate]
      simp [written, shownCalls_function, tokens]
  | cons first rest =>
      have written : ofCall call =
          .call (.function call.function) (call.arguments.map ofArgument) := by
        rcases ofCall_eq_of_takes takes with equal | ⟨none, _⟩
        · exact equal
        · rw [none] at arguments
          cases arguments
      rw [written, shownCalls_function, flatMap_shownCalls_ofArgument, arguments,
        if_neg (List.cons_ne_nil first rest)]

/-- A condition shows the calls of its operand, on which side of which operator, in a
list, or in lower case it may stand. -/
theorem Predicate.shownCalls_ofCondition_call
    (dialect : Dialect)
    (column : Column)
    (comparison : Comparison)
    (bound : BoundCall) :
    (ofCondition dialect ⟨column, comparison, .call bound⟩).shownCalls dialect =
      (Term.ofCall bound).shownCalls dialect := by
  have left : (Term.ofColumn column).shownCalls dialect = [] :=
    Term.shownCalls_column dialect column.table.aliasName column.name
  have caseless : ∀ negated, (compareCaseless dialect (Term.ofColumn column) negated
      (Term.ofCall bound)).terms.flatMap (Term.shownCalls dialect) =
        (Term.ofCall bound).shownCalls dialect := by
    intro negated
    rw [compareCaseless]
    split <;> simp [terms, left, Term.shownCalls_lower]
  rw [shownCalls, (hasCalls_terms dialect _).calls_eq]
  cases comparison with
  | ilike => exact caseless false
  | notIlike => exact caseless true
  | _ => simp [ofCondition, terms, itemsOf, Term.ofOperand, left]

end Sql

namespace FunctionCall

open Session

variable {call : FunctionCall} {session after : Session} {bound : BoundCall}

/-- Of a call that is bound in a session a text shows one expression for each argument, in
their order: the column that a field is resolved to, behind the fields in front of it, and
a literal as itself. Only a count may have no arguments, and then it shows everything in
their place. This is the only call in a column of the answer that the call is selected
as, and in a condition that it is the operand of; and a statement shows the calls of its
columns, of its conditions, of its groups and of its orders, and no others, with every
text as it is spelled. -/
theorem arguments_are_shown_one_by_one
    (ran : outcome call.bind session = (.ok bound, after))
    (setting : Bool)
    (dialect : Dialect) :
    ∃ (answers : List ResolvedField) (expressions : List (List Token)) (shown : ShownCall),
      outcome (call.paths.mapM resolveField) session = (.ok answers, after) ∧
      Argument.ShownWith call.arguments answers expressions ∧
      expressions.length = call.arguments.length ∧
      (call.arguments = [] → call.function = .count) ∧
      shown.word = (Callee.function call.function).word dialect ∧
      shown.arguments =
        (if call.arguments = [] then [[.symbol "*"]] else expressions) ∧
      (∀ names, ∃ name, outcome (Query.bindColumn names (.call call)) session =
        (.ok (Term.ofCall bound, name), after)) ∧
      (∀ name, (OutputColumn.term (Term.ofCall bound) name).shownCalls dialect =
        [shown]) ∧
      outcome (Operand.call call).bind session = (.ok (.call bound), after) ∧
      (∀ column comparison,
        (Predicate.ofCondition dialect ⟨column, comparison, .call bound⟩).shownCalls
          dialect = [shown]) ∧
      ∀ (statement : Statement) (formula : Formula BoundCondition),
        statement.test = .ofFormula dialect formula →
        callsIn setting dialect (statement.text dialect) =
          some ((statement.columns.flatMap (OutputColumn.shownCalls dialect)
            ++ formula.leaves.flatMap
              (Predicate.shownCalls dialect ∘ Predicate.ofCondition dialect)
            ++ statement.groupBy.flatMap (Term.shownCalls dialect)
            ++ statement.orderBy.flatMap (Ordering.shownCalls dialect)).map
              (ShownCall.spelled setting dialect)) := by
  obtain ⟨answers, answered, function_eq, boundWith⟩ := exists_boundWith ran
  have takes := takes_of_bind ran
  have none_iff : bound.arguments = [] ↔ call.arguments = [] := by
    rw [← List.length_eq_zero_iff, ← List.length_eq_zero_iff, boundWith.length_eq]
  have shownWith := boundWith.shownWith dialect
  let expressions := (bound.arguments.map Term.ofArgument).map (Term.tokens dialect)
  let shown : ShownCall := ⟨(Callee.function call.function).word dialect,
    if call.arguments = [] then [[.symbol "*"]] else expressions⟩
  have calls_eq : (Term.ofCall bound).shownCalls dialect = [shown] := by
    rw [Term.shownCalls_ofCall dialect takes, function_eq]
    simp only [none_iff, shown, expressions]
  refine ⟨answers, expressions, shown, answered, shownWith, shownWith.length_eq,
    fun none => ?_, rfl, rfl, fun names => ?_, fun name => ?_, ?_,
    fun column comparison => ?_, fun _ _ => Statement.callsIn_text setting dialect⟩
  · rw [none_iff.mpr none, function_eq] at takes
    exact FunctionName.eq_count_of_takes_zero takes
  · simp [Query.bindColumn, SelectField.bind, outcome_map, ran]
  · rw [OutputColumn.shownCalls, (OutputColumn.hasCalls_term dialect _ name).calls_eq,
      calls_eq]
  · simp [Operand.bind, outcome_map, ran]
  · rw [Predicate.shownCalls_ofCondition_call, calls_eq]

/-- A comma and a parenthesis in a text, and those of a list, do not divide the arguments
of a call, which is selected and compared in lower case. -/
theorem arguments_with_commas_are_shown :
    let foreignKeys : ForeignKeys := fun table field =>
      if table = "orders" ∧ field = "partner" then
        some ⟨"partners", "partner_id", "id"⟩
      else none
    let call : FunctionCall := ⟨.greatest, [.literal (.text "a, (b"),
      .field "partner.name", .literal (.list [.int 1, .null])]⟩
    let shown : ShownCall := ⟨"MAX", [[.text "a, (b"],
      [.name "t1", .symbol ".", .name "name"],
      [.symbol "(", .number "1", .symbol ",", .space, .word "NULL", .symbol ")"]]⟩
    let statement (bound : BoundCall) (joins : List Join) : Statement :=
      { columns := [.term (Term.ofCall bound) "best"]
        root := ⟨"orders", "t0"⟩
        joins := joins
        test := Test.ofFormula .sqlite
          (.not (.leaf ⟨⟨⟨"orders", "t0"⟩, "state"⟩, .ilike, .call bound⟩))
        groupBy := []
        orderBy := []
        limit := none
        offset := none }
    ∃ bound after,
      outcome call.bind (start "orders" foreignKeys) = (.ok bound, after) ∧
      callsIn true .sqlite ((statement bound after.joins).text .sqlite) =
        some [shown.spelled true .sqlite, shown.spelled true .sqlite] := by
  intro foreignKeys call shown statement
  obtain ⟨bound, after, ran⟩ :
      ∃ bound after, outcome call.bind (start "orders" foreignKeys) = (.ok bound, after) :=
    exists_ok_of_isSome (by decide +kernel)
  have answersShown : (outcome (call.paths.mapM resolveField)
      (start "orders" foreignKeys)).1.toOption.map (List.map fun answer =>
        (answer.column.table.aliasName, answer.column.name)) = some [("t1", "name")] := by
    decide +kernel
  obtain ⟨answers, expressions, ⟨word, arguments⟩, answered, shownWith, _, _, word_eq,
    arguments_eq, _, selected, _, compared, written⟩ :=
      arguments_are_shown_one_by_one ran true .sqlite
  have isShown : (⟨word, arguments⟩ : ShownCall) = shown := by
    rw [answered] at answersShown
    obtain rfl : word = "MAX" := word_eq
    obtain rfl : arguments = expressions := arguments_eq
    cases shownWith with
    | literal _ others =>
      cases others with
      | field _ answer others =>
        cases others with
        | literal _ others =>
          cases others
          obtain ⟨alias_eq, name_eq⟩ : answer.column.table.aliasName = "t1" ∧
              answer.column.name = "name" := by
            simpa [Except.toOption] using answersShown
          rw [alias_eq, name_eq]
          decide +kernel
  refine ⟨bound, after, ran, ?_⟩
  rw [written (statement bound after.joins) _ rfl]
  simp [statement, Formula.leaves, selected, compared, isShown]

end FunctionCall
end DomainSql
