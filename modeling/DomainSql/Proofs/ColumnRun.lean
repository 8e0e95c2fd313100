import DomainSql.Proofs.BindingRun
import DomainSql.Filter.Basic

/-!
# The columns of a filter

Binding resolves fields one after the other: the conditions of a domain from the last
to the first, and of a condition its left field and then the fields on the right from
left to right. What it gives is the domain with the answers in the places of its fields,
so its columns are those that these fields stand for, in this order.
-/

namespace DomainSql

/-! ## Fields and columns in order -/

namespace Operand

/-- The fields in an operand, in the order in which they are resolved. -/
def paths : Operand → List String
  | .literal _ => []
  | .field path => [path]
  | .call function => function.paths

end Operand

namespace Condition

/-- The fields in a condition, in the order in which they are resolved. -/
def paths (condition : Condition) : List String :=
  condition.field :: condition.operand.paths

end Condition

namespace Domain

/-- The fields in a domain, in the order in which they are resolved. -/
def paths (domain : Domain) : List String :=
  domain.conditions.reverse.flatMap Condition.paths

end Domain

namespace BoundArgument

/-- The column of an argument that is one. -/
def column? : BoundArgument → Option Column
  | .column bound => some bound
  | .literal _ => none

/-- An argument with its column changed. -/
def mapColumns (change : Column → Column) : BoundArgument → BoundArgument
  | .column bound => .column (change bound)
  | .literal value => .literal value

end BoundArgument

namespace BoundOperand

/-- The columns in an operand, from left to right. -/
def columns : BoundOperand → List Column
  | .literal _ => []
  | .column bound => [bound]
  | .call function => function.arguments.filterMap BoundArgument.column?

/-- An operand with its columns changed. -/
def mapColumns (change : Column → Column) : BoundOperand → BoundOperand
  | .literal value => .literal value
  | .column bound => .column (change bound)
  | .call function =>
      .call ⟨function.function, function.arguments.map (.mapColumns change)⟩

end BoundOperand

namespace BoundCondition

/-- The columns in a condition, from left to right. -/
def columns (condition : BoundCondition) : List Column :=
  condition.column :: condition.operand.columns

/-- A condition with its columns changed. -/
def mapColumns
    (change : Column → Column)
    (condition : BoundCondition) : BoundCondition where
  column := change condition.column
  comparison := condition.comparison
  operand := condition.operand.mapColumns change

end BoundCondition

/-! ## Resolving them one after the other -/

namespace Session

/-- Resolve a field to its column. -/
def resolveColumn (path : String) : Resolving Column := do
  let resolved ← resolveField path
  pure resolved.column

/-- Resolve fields to their columns, one after the other. -/
def resolveColumns (paths : List String) : Resolving (List Column) :=
  paths.mapM resolveColumn

variable {session middle after : Session}

theorem outcome_resolveColumn_eq_ok_iff
    {path : String}
    {column : Column} :
    outcome (resolveColumn path) session = (.ok column, after) ↔
      ∃ resolved, outcome (resolveField path) session = (.ok resolved, after) ∧
        resolved.column = column := by
  simp only [resolveColumn, outcome_bind_eq_ok_iff, outcome_pure, Prod.mk.injEq,
    Except.ok.injEq]
  constructor
  · rintro ⟨resolved, _, answered, rfl, rfl⟩
    exact ⟨resolved, answered, rfl⟩
  · rintro ⟨resolved, answered, rfl⟩
    exact ⟨resolved, after, answered, rfl, rfl⟩

theorem outcome_resolveColumns_cons_eq_ok_iff
    {path : String}
    {rest : List String}
    {columns : List Column} :
    outcome (resolveColumns (path :: rest)) session = (.ok columns, after) ↔
      ∃ column middle others,
        outcome (resolveColumn path) session = (.ok column, middle) ∧
        outcome (resolveColumns rest) middle = (.ok others, after) ∧
        columns = column :: others :=
  outcome_mapM_cons_eq_ok_iff

/-- Runs over fields can be put together. -/
theorem outcome_resolveColumns_append
    {front back : List String}
    {columns others : List Column}
    (frontRan : outcome (resolveColumns front) session = (.ok columns, middle))
    (backRan : outcome (resolveColumns back) middle = (.ok others, after)) :
    outcome (resolveColumns (front ++ back)) session =
      (.ok (columns ++ others), after) :=
  outcome_mapM_append frontRan backRan

theorem outcome_resolveColumns_singleton
    {path : String}
    {resolved : ResolvedField}
    (answered : outcome (resolveField path) session = (.ok resolved, after)) :
    outcome (resolveColumns [path]) session = (.ok [resolved.column], after) :=
  outcome_resolveColumns_cons_eq_ok_iff.mpr ⟨resolved.column, after, [],
    outcome_resolveColumn_eq_ok_iff.mpr ⟨resolved, answered, rfl⟩, rfl, rfl⟩

/-- Fields that are resolved one after the other stand for the columns of the answers. -/
theorem outcome_resolveColumns_of_answers
    {paths : List String}
    {answers : List ResolvedField}
    (ran : outcome (paths.mapM resolveField) session = (.ok answers, after)) :
    outcome (resolveColumns paths) session =
      (.ok (answers.map ResolvedField.column), after) := by
  induction paths generalizing session answers with
  | nil =>
      cases ran
      rfl
  | cons path rest inductionHypothesis =>
      obtain ⟨resolved, middle, others, answered, restRan, rfl⟩ :=
        outcome_mapM_cons_eq_ok_iff.mp ran
      exact outcome_resolveColumns_append
        (outcome_resolveColumns_singleton answered) (inductionHypothesis restRan)

end Session

/-! ## Answers in the places of fields -/

/-- Arguments are bound with the answers to their fields: a field becomes the column of
its answer, and a literal stays what it is. -/
inductive Argument.BoundWith :
    List Argument → List ResolvedField → List BoundArgument → Prop
  | nil : BoundWith [] [] []
  | field
      (path : String)
      (answer : ResolvedField)
      {rest : List Argument}
      {answers : List ResolvedField}
      {bound : List BoundArgument}
      (others : BoundWith rest answers bound) :
      BoundWith (.field path :: rest) (answer :: answers)
        (.column answer.column :: bound)
  | literal
      (value : Literal)
      {rest : List Argument}
      {answers : List ResolvedField}
      {bound : List BoundArgument}
      (others : BoundWith rest answers bound) :
      BoundWith (.literal value :: rest) answers (.literal value :: bound)

/-- An operand is bound with the answers to its fields. -/
inductive Operand.BoundWith :
    Operand → List ResolvedField → BoundOperand → Prop
  | literal (value : Literal) : BoundWith (.literal value) [] (.literal value)
  | field
      (path : String)
      (answer : ResolvedField) :
      BoundWith (.field path) [answer] (.column answer.column)
  | call
      (function : FunctionName)
      {arguments : List Argument}
      {answers : List ResolvedField}
      {bound : List BoundArgument}
      (each : Argument.BoundWith arguments answers bound) :
      BoundWith (.call ⟨function, arguments⟩) answers (.call ⟨function, bound⟩)

/-- A condition is bound with the answers to its fields, the one on the left first. -/
inductive Condition.BoundWith :
    Condition → List ResolvedField → BoundCondition → Prop
  | mk
      {condition : Condition}
      {comparison : Comparison}
      (known : Comparison.ofToken? condition.operator = some comparison)
      (left : ResolvedField)
      {answers : List ResolvedField}
      {operand : BoundOperand}
      (right : condition.operand.BoundWith answers operand) :
      BoundWith condition (left :: answers) ⟨left.column, comparison, operand⟩

section Columns

variable {answers : List ResolvedField}

/-- Bound arguments have the columns of the answers, in the order of the fields. -/
theorem Argument.BoundWith.columns
    {arguments : List Argument}
    {bound : List BoundArgument}
    (boundWith : BoundWith arguments answers bound) :
    bound.filterMap BoundArgument.column? = answers.map ResolvedField.column := by
  induction boundWith with
  | nil => rfl
  | field path answer _ inductionHypothesis =>
      exact congrArg (answer.column :: ·) inductionHypothesis
  | literal value _ inductionHypothesis => exact inductionHypothesis

theorem Operand.BoundWith.columns
    {operand : Operand}
    {bound : BoundOperand}
    (boundWith : operand.BoundWith answers bound) :
    bound.columns = answers.map ResolvedField.column := by
  cases boundWith with
  | literal value => rfl
  | field path answer => rfl
  | call function each => exact each.columns

theorem Condition.BoundWith.columns
    {condition : Condition}
    {bound : BoundCondition}
    (boundWith : condition.BoundWith answers bound) :
    bound.columns = answers.map ResolvedField.column := by
  obtain ⟨_, left, right⟩ := boundWith
  exact congrArg (left.column :: ·) right.columns

/-- Bound conditions have the columns of the answers, in the order of the fields. -/
theorem Condition.flatMap_columns_of_boundWith
    {pairs : List (Condition × BoundCondition)}
    {answers : List (List ResolvedField)}
    (boundWith : List.Forall₂ (fun pair own => pair.1.BoundWith own pair.2)
      pairs answers) :
    (pairs.map Prod.snd).flatMap BoundCondition.columns =
      answers.flatten.map ResolvedField.column := by
  induction boundWith with
  | nil => rfl
  | cons first _ inductionHypothesis =>
      simp [first.columns, inductionHypothesis]

end Columns

open Session

section Binding

variable {session after : Session}

/-- Binding arguments resolves the fields among them and puts the answers in their
places. -/
theorem Argument.exists_boundWith
    {arguments : List Argument}
    {bound : List BoundArgument}
    (ran : outcome (arguments.mapM Argument.bind) session = (.ok bound, after)) :
    ∃ answers,
      outcome ((arguments.filterMap Argument.path?).mapM resolveField) session =
        (.ok answers, after) ∧
      BoundWith arguments answers bound := by
  induction arguments generalizing session bound with
  | nil =>
      cases ran
      exact ⟨[], rfl, .nil⟩
  | cons argument rest inductionHypothesis =>
      obtain ⟨first, middle, others, firstRan, restRan, rfl⟩ :=
        outcome_mapM_cons_eq_ok_iff.mp ran
      obtain ⟨answers, restAnswers, restBound⟩ := inductionHypothesis restRan
      cases argument with
      | field path =>
          obtain ⟨answer, next, answered, firstRan⟩ :=
            outcome_bind_eq_ok_iff.mp firstRan
          cases firstRan
          exact ⟨answer :: answers,
            outcome_mapM_cons_eq_ok_iff.mpr
              ⟨answer, middle, answers, answered, restAnswers, rfl⟩,
            .field path answer restBound⟩
      | literal value =>
          cases firstRan
          exact ⟨answers, restAnswers, .literal value restBound⟩

/-- Binding a call resolves the fields among its arguments. -/
theorem FunctionCall.exists_boundWith
    {call : FunctionCall}
    {bound : BoundCall}
    (ran : outcome call.bind session = (.ok bound, after)) :
    ∃ answers,
      outcome (call.paths.mapM resolveField) session = (.ok answers, after) ∧
      bound.function = call.function ∧
      Argument.BoundWith call.arguments answers bound.arguments := by
  rw [FunctionCall.bind] at ran
  split at ran
  · obtain ⟨arguments, _, argumentsRan, ran⟩ := outcome_bind_eq_ok_iff.mp ran
    cases ran
    obtain ⟨answers, answered, boundWith⟩ := Argument.exists_boundWith argumentsRan
    exact ⟨answers, answered, rfl, boundWith⟩
  · cases ran

/-- The columns of a bound call are those of the fields among its arguments. -/
theorem FunctionCall.resolveColumns_of_bind
    {call : FunctionCall}
    {bound : BoundCall}
    (ran : outcome call.bind session = (.ok bound, after)) :
    outcome (resolveColumns call.paths) session =
      (.ok (bound.arguments.filterMap BoundArgument.column?), after) := by
  obtain ⟨answers, answered, _, boundWith⟩ := exists_boundWith ran
  rw [boundWith.columns]
  exact outcome_resolveColumns_of_answers answered

/-- Binding an operand resolves the fields in it and puts the answers in their places. -/
theorem Operand.exists_boundWith
    {operand : Operand}
    {bound : BoundOperand}
    (ran : outcome operand.bind session = (.ok bound, after)) :
    ∃ answers,
      outcome (operand.paths.mapM resolveField) session = (.ok answers, after) ∧
      operand.BoundWith answers bound := by
  cases operand with
  | literal value =>
      cases ran
      exact ⟨[], rfl, .literal value⟩
  | field path =>
      obtain ⟨answer, _, answered, ran⟩ := outcome_bind_eq_ok_iff.mp ran
      cases ran
      exact ⟨[answer],
        outcome_mapM_cons_eq_ok_iff.mpr ⟨answer, after, [], answered, rfl, rfl⟩,
        .field path answer⟩
  | call call =>
      obtain ⟨⟨function, arguments⟩, _, callRan, ran⟩ :=
        outcome_bind_eq_ok_iff.mp ran
      cases ran
      obtain ⟨answers, answered, rfl, boundWith⟩ :=
        FunctionCall.exists_boundWith callRan
      exact ⟨answers, answered, .call call.function boundWith⟩

/-- Binding a condition resolves its left field and then those on the right. -/
theorem Condition.exists_boundWith
    {condition : Condition}
    {bound : BoundCondition}
    (ran : outcome condition.bind session = (.ok bound, after)) :
    ∃ answers,
      outcome (condition.paths.mapM resolveField) session = (.ok answers, after) ∧
      condition.BoundWith answers bound := by
  rw [Condition.bind] at ran
  split at ran
  · cases ran
  · rename_i comparison known
    obtain ⟨left, middle, answered, ran⟩ := outcome_bind_eq_ok_iff.mp ran
    obtain ⟨operand, _, operandRan, ran⟩ := outcome_bind_eq_ok_iff.mp ran
    cases ran
    obtain ⟨answers, rightAnswered, right⟩ := Operand.exists_boundWith operandRan
    exact ⟨left :: answers,
      outcome_mapM_cons_eq_ok_iff.mpr
        ⟨left, middle, answers, answered, rightAnswered, rfl⟩,
      .mk known left right⟩

/-- Binding conditions one after the other resolves the fields in them. -/
theorem Condition.exists_boundWith_of_mapM
    {pairs : List (Condition × BoundCondition)}
    (ran : outcome ((pairs.map Prod.fst).mapM Condition.bind) session =
      (.ok (pairs.map Prod.snd), after)) :
    ∃ answers : List (List ResolvedField),
      outcome (((pairs.map Prod.fst).flatMap Condition.paths).mapM resolveField)
        session = (.ok answers.flatten, after) ∧
      List.Forall₂ (fun pair own => pair.1.BoundWith own pair.2) pairs answers := by
  induction pairs generalizing session with
  | nil =>
      cases ran
      exact ⟨[], rfl, .nil⟩
  | cons pair rest inductionHypothesis =>
      obtain ⟨first, middle, others, firstRan, restRan, same⟩ :=
        outcome_mapM_cons_eq_ok_iff.mp ran
      obtain ⟨rfl, rfl⟩ := List.cons.inj same
      obtain ⟨own, ownAnswered, boundWith⟩ := exists_boundWith firstRan
      obtain ⟨answers, answered, restBound⟩ := inductionHypothesis restRan
      exact ⟨own :: answers, outcome_mapM_append ownAnswered answered,
        .cons boundWith restBound⟩

/-- The run over the conditions of a domain resolves the fields in it. -/
theorem Domain.exists_boundWith
    {domain : Domain}
    {bound : Formula (Condition × BoundCondition)}
    (conditions_eq : bound.leaves.map Prod.fst = domain.conditions)
    (ran : outcome (domain.bindRun Condition.bind) session =
      (.ok (bound.map Prod.snd).leaves.reverse, after)) :
    ∃ answers : List (List ResolvedField),
      outcome (domain.paths.mapM resolveField) session =
        (.ok answers.flatten, after) ∧
      List.Forall₂ (fun pair own => pair.1.BoundWith own pair.2)
        bound.leaves.reverse answers := by
  rw [paths, ← conditions_eq, ← List.map_reverse]
  rw [bindRun, Formula.leaves_map, ← conditions_eq, ← List.map_reverse,
    ← List.map_reverse] at ran
  exact Condition.exists_boundWith_of_mapM ran

/-- Binding a domain resolves the fields in it, one after the other, and the columns of
the formula are those that these fields stand for. -/
theorem Domain.resolveColumns_of_bind
    {domain : Domain}
    {formula : Formula BoundCondition}
    (ran : outcome domain.bind session = (.ok formula, after)) :
    outcome (resolveColumns domain.paths) session =
      (.ok (formula.leaves.reverse.flatMap BoundCondition.columns), after) := by
  obtain ⟨bound, _, rfl, conditions_eq, bindRan⟩ := exists_bound_of_formulaWith ran
  obtain ⟨answers, answered, boundWith⟩ := exists_boundWith conditions_eq bindRan
  rw [Formula.leaves_map, ← List.map_reverse,
    Condition.flatMap_columns_of_boundWith boundWith]
  exact outcome_resolveColumns_of_answers answered

/-- Binding a domain does to a session what resolving its fields does, one after the
other: the conditions from the last to the first, and of each the left field and then
those on the right from left to right. Every leaf of the formula stands where its
condition stands in the structure of the domain, and has the columns of the answers in
the places of its fields. -/
theorem Domain.bind_resolves_fields_in_order
    {domain : Domain}
    {formula : Formula BoundCondition}
    (ran : outcome domain.bind session = (.ok formula, after)) :
    ∃ (bound : Formula (Condition × BoundCondition))
        (answers : List (List ResolvedField)),
      domain.parsed = .ok (bound.map Prod.fst) ∧
      formula = bound.map Prod.snd ∧
      bound.leaves.map Prod.fst = domain.conditions ∧
      outcome (domain.paths.mapM resolveField) session =
        (.ok answers.flatten, after) ∧
      List.Forall₂ (fun pair own => pair.1.BoundWith own pair.2)
        bound.leaves.reverse answers := by
  obtain ⟨bound, parsed, formula_eq, conditions_eq, bindRan⟩ :=
    exists_bound_of_formulaWith ran
  rw [formula_eq] at bindRan
  obtain ⟨answers, answered, boundWith⟩ := exists_boundWith conditions_eq bindRan
  exact ⟨bound, answers, parsed, formula_eq, conditions_eq, answered, boundWith⟩

/-- The joins of two conditions come behind the one that the session has already, those of
the last condition first, and the field inside the call behind the one on its left. -/
theorem Domain.bind_resolves_last_condition_first :
    let foreignKeys : ForeignKeys := fun table field =>
      if table = "orders" then some ⟨field, "ref", "id"⟩ else none
    let session := (outcome (resolveField "shop.name") (start "orders" foreignKeys)).2
    let domain : Domain :=
      [.marker "|",
        .condition ⟨"partner.name", "=", .field "shop.name"⟩,
        .condition ⟨"country.code", "=",
          .call ⟨.coalesce, [.literal .null, .field "partner(L).code"]⟩⟩]
    ∃ formula after,
      outcome domain.bind session = (.ok formula, after) ∧
      after.joins.map Join.key = ["shop", "country", "partner(L)", "partner"] ∧
      ∃ answers : List (List ResolvedField),
        outcome (["country.code", "partner(L).code", "partner.name", "shop.name"].mapM
          resolveField) session = (.ok answers.flatten, after) ∧
        formula.leaves.reverse.flatMap BoundCondition.columns =
          answers.flatten.map ResolvedField.column := by
  intro foreignKeys session domain
  obtain ⟨formula, after, ran⟩ :
      ∃ formula after, outcome domain.bind session = (.ok formula, after) :=
    exists_ok_of_isSome (by decide +kernel)
  have joined : (outcome domain.bind session).2.joins.map Join.key =
      ["shop", "country", "partner(L)", "partner"] := by decide +kernel
  rw [ran] at joined
  obtain ⟨bound, answers, _, rfl, _, answered, boundWith⟩ :=
    bind_resolves_fields_in_order ran
  refine ⟨_, after, ran, joined, answers, answered, ?_⟩
  rw [Formula.leaves_map, ← List.map_reverse,
    Condition.flatMap_columns_of_boundWith boundWith]

end Binding

/-! ## Binding to other columns -/

section Rebinding

variable {session after other final : Session} {change : Column → Column}
  {more : List String} {others : List Column}

/-- Where the fields among arguments that have been bound stand for other columns, and
fields behind them are resolved, the arguments are bound to the other columns. -/
theorem Argument.bind_of_resolveColumns
    {arguments : List Argument}
    {bound : List BoundArgument}
    (ran : outcome (arguments.mapM Argument.bind) session = (.ok bound, after))
    (resolved :
      outcome (resolveColumns (arguments.filterMap Argument.path? ++ more)) other =
        (.ok ((bound.filterMap BoundArgument.column?).map change ++ others), final)) :
    ∃ middle,
      outcome (arguments.mapM Argument.bind) other =
        (.ok (bound.map (.mapColumns change)), middle) ∧
      outcome (resolveColumns more) middle = (.ok others, final) := by
  induction arguments generalizing session bound other with
  | nil =>
      cases ran
      exact ⟨other, rfl, resolved⟩
  | cons argument rest inductionHypothesis =>
      obtain ⟨first, next, restBound, firstRan, restRan, rfl⟩ :=
        outcome_mapM_cons_eq_ok_iff.mp ran
      cases argument with
      | field path =>
          obtain ⟨answer, _, _, firstRan⟩ := outcome_bind_eq_ok_iff.mp firstRan
          cases firstRan
          obtain ⟨column, start, columns, headRan, tailRan, same⟩ :=
            outcome_resolveColumns_cons_eq_ok_iff.mp resolved
          obtain ⟨rfl, rfl⟩ := List.cons.inj same
          obtain ⟨otherAnswer, answered, columnSame⟩ :=
            outcome_resolveColumn_eq_ok_iff.mp headRan
          obtain ⟨middle, restBinds, moreRan⟩ := inductionHypothesis restRan tailRan
          refine ⟨middle, outcome_mapM_cons_eq_ok_iff.mpr
            ⟨_, start, _, ?_, restBinds, List.map_cons⟩, moreRan⟩
          simp [Argument.bind, outcome_map, answered, columnSame,
            BoundArgument.mapColumns]
      | literal value =>
          cases firstRan
          obtain ⟨middle, restBinds, moreRan⟩ := inductionHypothesis restRan resolved
          exact ⟨middle, outcome_mapM_cons_eq_ok_iff.mpr
            ⟨_, other, _, rfl, restBinds, List.map_cons⟩, moreRan⟩

/-- An operand that has been bound is bound where its fields stand for other columns. -/
theorem Operand.bind_of_resolveColumns
    {operand : Operand}
    {bound : BoundOperand}
    (ran : outcome operand.bind session = (.ok bound, after))
    (resolved : outcome (resolveColumns (operand.paths ++ more)) other =
      (.ok (bound.columns.map change ++ others), final)) :
    ∃ middle,
      outcome operand.bind other = (.ok (bound.mapColumns change), middle) ∧
      outcome (resolveColumns more) middle = (.ok others, final) := by
  cases operand with
  | literal value =>
      cases ran
      exact ⟨other, rfl, resolved⟩
  | field path =>
      obtain ⟨answer, _, _, ran⟩ := outcome_bind_eq_ok_iff.mp ran
      cases ran
      obtain ⟨column, middle, columns, headRan, moreRan, same⟩ :=
        outcome_resolveColumns_cons_eq_ok_iff.mp resolved
      obtain ⟨rfl, rfl⟩ := List.cons.inj same
      obtain ⟨otherAnswer, answered, columnSame⟩ :=
        outcome_resolveColumn_eq_ok_iff.mp headRan
      refine ⟨middle, ?_, moreRan⟩
      simp [Operand.bind, outcome_map, answered, columnSame,
        BoundOperand.mapColumns]
  | call function =>
      obtain ⟨call, _, callRan, ran⟩ := outcome_bind_eq_ok_iff.mp ran
      cases ran
      rw [FunctionCall.bind] at callRan
      split at callRan
      · rename_i takes
        obtain ⟨arguments, _, argumentsRan, callRan⟩ :=
          outcome_bind_eq_ok_iff.mp callRan
        cases callRan
        obtain ⟨middle, argumentsBind, moreRan⟩ :=
          Argument.bind_of_resolveColumns argumentsRan resolved
        refine ⟨middle, ?_, moreRan⟩
        simp [Operand.bind, FunctionCall.bind, takes, outcome_map, argumentsBind,
          BoundOperand.mapColumns]
      · cases callRan

/-- A condition that has been bound is bound where its fields stand for other
columns. -/
theorem Condition.bind_of_resolveColumns
    {condition : Condition}
    {bound : BoundCondition}
    (ran : outcome condition.bind session = (.ok bound, after))
    (resolved : outcome (resolveColumns (condition.paths ++ more)) other =
      (.ok (bound.columns.map change ++ others), final)) :
    ∃ middle,
      outcome condition.bind other = (.ok (bound.mapColumns change), middle) ∧
      outcome (resolveColumns more) middle = (.ok others, final) := by
  rw [Condition.bind] at ran ⊢
  split at ran
  · cases ran
  · obtain ⟨answer, _, _, ran⟩ := outcome_bind_eq_ok_iff.mp ran
    obtain ⟨operand, _, operandRan, ran⟩ := outcome_bind_eq_ok_iff.mp ran
    cases ran
    obtain ⟨column, start, columns, headRan, tailRan, same⟩ :=
      outcome_resolveColumns_cons_eq_ok_iff.mp resolved
    obtain ⟨rfl, rfl⟩ := List.cons.inj same
    obtain ⟨otherAnswer, answered, columnSame⟩ :=
      outcome_resolveColumn_eq_ok_iff.mp headRan
    obtain ⟨middle, operandBinds, moreRan⟩ :=
      Operand.bind_of_resolveColumns operandRan tailRan
    refine ⟨middle, ?_, moreRan⟩
    simp [outcome_bind, outcome_map, answered, operandBinds, columnSame,
      BoundCondition.mapColumns]

/-- The fields of a domain are those of its first item behind those of the rest. -/
theorem Domain.paths_cons_condition
    (condition : Condition)
    (rest : Domain) :
    Domain.paths (.condition condition :: rest) = rest.paths ++ condition.paths := by
  simp [Domain.paths, Domain.conditions_cons_condition]

/-- The operands of a domain that has been bound are bound where its fields stand for
other columns. -/
theorem Domain.operandsWith_of_resolveColumns
    {position : Nat}
    {domain : Domain}
    {operands : List (Formula BoundCondition)}
    (ran : outcome (domain.operandsWith Condition.bind position) session =
      (.ok operands, after))
    (resolved : outcome (resolveColumns (domain.paths ++ more)) other =
      (.ok (((Formula.leavesOf operands).reverse.flatMap
        BoundCondition.columns).map change ++ others), final)) :
    ∃ middle,
      outcome (domain.operandsWith Condition.bind position) other =
        (.ok (operands.map (.map (.mapColumns change))), middle) ∧
      outcome (resolveColumns more) middle = (.ok others, final) := by
  induction domain generalizing position operands after more others with
  | nil =>
      cases ran
      exact ⟨other, rfl, resolved⟩
  | cons item rest inductionHypothesis =>
      cases item with
      | condition condition =>
          obtain ⟨restOperands, next, bound, restRan, conditionRan, rfl⟩ :=
            Domain.operandsWith_condition_eq_ok_iff.mp ran
          rw [Domain.paths_cons_condition, List.append_assoc] at resolved
          have behind : outcome
              (resolveColumns (Domain.paths rest ++ (condition.paths ++ more))) other =
              (.ok (((Formula.leavesOf restOperands).reverse.flatMap
                  BoundCondition.columns).map change ++
                (bound.columns.map change ++ others)), final) := by
            simpa [Formula.leavesOf, Formula.leaves] using resolved
          obtain ⟨start, restBinds, moreRan⟩ := inductionHypothesis restRan behind
          obtain ⟨middle, conditionBinds, moreRan⟩ :=
            Condition.bind_of_resolveColumns conditionRan moreRan
          exact ⟨middle, Domain.operandsWith_condition_eq_ok_iff.mpr
            ⟨_, start, _, restBinds, conditionBinds, rfl⟩, moreRan⟩
      | marker text =>
          obtain ⟨marker, restOperands, rfl, restRan, applied⟩ :=
            Domain.operandsWith_marker_eq_ok_iff.mp ran
          rw [Marker.leavesOf_of_apply applied] at resolved
          obtain ⟨middle, restBinds, moreRan⟩ := inductionHypothesis restRan resolved
          refine ⟨middle, Domain.operandsWith_marker_eq_ok_iff.mpr
            ⟨marker, _, rfl, restBinds, ?_⟩, moreRan⟩
          rw [Marker.apply_map, applied]
          rfl

/-- A domain that has been bound is bound to other columns where its fields stand for
them. -/
theorem Domain.bind_of_resolveColumns
    {domain : Domain}
    {formula : Formula BoundCondition}
    (ran : outcome domain.bind session = (.ok formula, after))
    (resolved : outcome (resolveColumns domain.paths) other =
      (.ok ((formula.leaves.reverse.flatMap BoundCondition.columns).map change),
        final)) :
    outcome domain.bind other = (.ok (formula.map (.mapColumns change)), final) := by
  obtain ⟨operands, rfl, operandsRan⟩ := Domain.formulaWith_eq_ok_iff.mp ran
  rw [Formula.leaves_conjunction] at resolved
  have last : outcome (resolveColumns (domain.paths ++ [])) other =
      (.ok (((Formula.leavesOf operands).reverse.flatMap
        BoundCondition.columns).map change ++ []), final) := by
    simpa using resolved
  obtain ⟨middle, operandsBind, done⟩ :=
    Domain.operandsWith_of_resolveColumns operandsRan last
  cases done
  exact Domain.formulaWith_eq_ok_iff.mpr
    ⟨_, Formula.map_conjunction _ _, operandsBind⟩

end Rebinding
end DomainSql
