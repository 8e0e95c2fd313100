import DomainSql.Proofs.ObservedSessions
import DomainSql.Proofs.ColumnRun
import DomainSql.Proofs.TruthValues

/-!
# The columns of a statement

What a selection or a filter has resolved is what the statement shows of it: the
columns in its terms and in its test are those that the fields stand for, in their
order. No argument of a call is lost on the way, since an aggregate, which shows one
argument only, takes no more.
-/

namespace DomainSql

/-! ## What a statement mentions -/

namespace Sql

namespace Term

mutual

/-- The columns in a term from left to right, each by its alias and its name. -/
def columns : Term → List (String × String)
  | .column table name => [(table, name)]
  | .everything => []
  | .literal _ => []
  | .call _ arguments => columnsOf arguments

/-- The columns in terms from left to right. -/
def columnsOf : List Term → List (String × String)
  | [] => []
  | term :: rest => term.columns ++ columnsOf rest

end

theorem columnsOf_eq_flatMap (terms : List Term) :
    columnsOf terms = terms.flatMap columns := by
  induction terms with
  | nil => rfl
  | cons term rest inductionHypothesis =>
      rw [columnsOf, inductionHypothesis, List.flatMap_cons]

@[simp] theorem columns_ofColumn (column : Column) :
    (ofColumn column).columns = [column.shown] := by
  rw [ofColumn, columns, Column.shown]

@[simp] theorem columns_literal (value : Literal) :
    (literal value).columns = [] := by
  rw [columns]

@[simp] theorem columns_call
    (callee : Callee)
    (arguments : List Term) :
    (call callee arguments).columns = arguments.flatMap columns := by
  rw [columns, columnsOf_eq_flatMap]

end Term

/-- The columns in a predicate from left to right. -/
def Predicate.columns : Predicate → List (String × String)
  | .compare left _ right => left.columns ++ right.columns
  | .member left _ items => left.columns ++ items.flatMap Term.columns
  | .isNull left _ => left.columns

/-- The columns in a test from left to right. -/
def Test.columns (test : Test) : List (String × String) :=
  test.predicates.flatMap Predicate.columns

namespace OutputColumn

/-- The columns in a column of the answer. -/
def columns : OutputColumn → List (String × String)
  | .everything => []
  | .everythingOf _ => []
  | .term value _ => value.columns

/-- The alias of the table that is selected as a whole. -/
def whole? : OutputColumn → Option String
  | .everything => none
  | .everythingOf aliasName => some aliasName
  | .term _ _ => none

end OutputColumn

/-- The columns that a statement selects, sorts by and groups by. -/
def Statement.selectedColumns (statement : Statement) : List (String × String) :=
  statement.columns.flatMap OutputColumn.columns
    ++ statement.orderBy.flatMap (Term.columns ∘ Ordering.term)
    ++ statement.groupBy.flatMap Term.columns

end Sql

/-! ## Terms show what has been resolved -/

namespace Sql

theorem Term.flatMap_columns_ofArgument (arguments : List BoundArgument) :
    (arguments.map Term.ofArgument).flatMap Term.columns =
      (arguments.filterMap BoundArgument.column?).map Column.shown := by
  induction arguments with
  | nil => rfl
  | cons argument rest inductionHypothesis =>
      cases argument <;>
        simp [Term.ofArgument, BoundArgument.column?, inductionHypothesis,
          List.filterMap_cons]

/-- A call with as many arguments as its function takes loses none of them. If it has
none, everything stands in their place. -/
theorem Term.ofCall_eq_of_takes
    {call : BoundCall}
    (takes : call.function.takes call.arguments.length) :
    ofCall call = .call (.function call.function) (call.arguments.map ofArgument) ∨
      call.arguments = [] ∧ ofCall call = .call (.function call.function) [.everything] := by
  rw [ofCall]
  split
  · rename_i isAggregate
    cases arguments : call.arguments with
    | nil => exact .inr ⟨rfl, rfl⟩
    | cons first rest =>
        -- An aggregate takes no second argument.
        have single : rest.length = 0 := by
          rw [arguments] at takes
          cases function : call.function <;>
            simp_all [FunctionName.takes, FunctionName.isAggregate]
        rw [List.eq_nil_of_length_eq_zero single]
        exact .inl rfl
  · exact .inl rfl

/-- A call with as many arguments as its function takes shows the columns of all of
them. -/
theorem Term.columns_ofCall
    {call : BoundCall}
    (takes : call.function.takes call.arguments.length) :
    (ofCall call).columns =
      (call.arguments.filterMap BoundArgument.column?).map Column.shown := by
  rw [← flatMap_columns_ofArgument]
  rcases ofCall_eq_of_takes takes with equal | ⟨none, equal⟩
  · rw [equal, columns_call]
  · rw [equal, none, columns_call]
    rfl

end Sql

namespace BoundOperand

/-- A call in the operand has as many arguments as its function takes. -/
def Takes : BoundOperand → Prop
  | .literal _ => True
  | .column _ => True
  | .call function => function.function.takes function.arguments.length = true

end BoundOperand

namespace Sql

theorem Term.columns_ofOperand
    {operand : BoundOperand}
    (takes : operand.Takes) :
    (ofOperand operand).columns = operand.columns.map Column.shown := by
  cases operand with
  | literal value => simp [ofOperand, BoundOperand.columns]
  | column bound => simp [ofOperand, BoundOperand.columns]
  | call function => exact columns_ofCall takes

/-- A predicate shows the columns of its condition, in their order. -/
theorem Predicate.columns_ofCondition
    (dialect : Dialect)
    {condition : BoundCondition}
    (takes : condition.operand.Takes) :
    (ofCondition dialect condition).columns = condition.columns.map Column.shown := by
  have right := Term.columns_ofOperand takes
  have caseless : ∀ negated, (compareCaseless dialect (Term.ofColumn condition.column)
      negated (Term.ofOperand condition.operand)).columns =
        condition.columns.map Column.shown := by
    intro negated
    rw [compareCaseless]
    split <;> simp [columns, right, BoundCondition.columns]
  have items : (itemsOf condition.operand).flatMap Term.columns =
      condition.operand.columns.map Column.shown := by
    rw [itemsOf.eq_def]
    split
    · rename_i literals isList
      rw [isList, List.flatMap_map]
      simp [BoundOperand.columns]
    · simpa using right
  rw [ofCondition]
  split <;> simp_all [columns, BoundCondition.columns, BoundOperand.columns]

end Sql

open Session

section Binding

variable {session after : Session}

/-- A call that has been bound has as many arguments as its function takes. -/
theorem FunctionCall.takes_of_bind
    {call : FunctionCall}
    {bound : BoundCall}
    (ran : outcome call.bind session = (.ok bound, after)) :
    bound.function.takes bound.arguments.length = true := by
  rw [FunctionCall.bind] at ran
  split at ran
  · rename_i takes
    obtain ⟨arguments, last, argumentsRan, ran⟩ := outcome_bind_eq_ok_iff.mp ran
    cases ran
    rwa [(forall₂_ran_of_mapM argumentsRan).length_eq] at takes
  · cases ran

/-- An operand that has been bound has no call with a wrong number of arguments. -/
theorem Operand.takes_of_bind
    {operand : Operand}
    {bound : BoundOperand}
    (ran : outcome operand.bind session = (.ok bound, after)) :
    bound.Takes := by
  cases operand with
  | literal value =>
      cases ran
      trivial
  | field path =>
      obtain ⟨resolved, middle, _, ran⟩ := outcome_bind_eq_ok_iff.mp ran
      cases ran
      trivial
  | call function =>
      obtain ⟨call, middle, callRan, ran⟩ := outcome_bind_eq_ok_iff.mp ran
      cases ran
      exact FunctionCall.takes_of_bind callRan

theorem Condition.takes_of_bind
    {condition : Condition}
    {bound : BoundCondition}
    (ran : outcome condition.bind session = (.ok bound, after)) :
    bound.operand.Takes := by
  rw [Condition.bind] at ran
  split at ran
  · cases ran
  · obtain ⟨_, _, _, ran⟩ := outcome_bind_eq_ok_iff.mp ran
    obtain ⟨operand, last, operandRan, ran⟩ := outcome_bind_eq_ok_iff.mp ran
    cases ran
    exact Operand.takes_of_bind operandRan

/-- No condition of a domain that has been bound has a call with a wrong number of
arguments. -/
theorem Domain.takes_of_bind
    {domain : Domain}
    {formula : Formula BoundCondition}
    (ran : outcome domain.bind session = (.ok formula, after)) :
    ∀ condition ∈ formula.leaves, condition.operand.Takes := by
  obtain ⟨_, _, _, _, bindRan⟩ := exists_bound_of_formulaWith ran
  intro condition inLeaves
  obtain ⟨_, _, _, _, conditionRan⟩ := exists_related_of_mem
    (forall₂_ran_of_mapM bindRan).flip (List.mem_reverse.mpr inLeaves)
  exact Condition.takes_of_bind conditionRan

/-- The test of a domain that has been bound shows the columns of its formula, in their
order. -/
theorem Domain.columns_ofFormula_of_bind
    {domain : Domain}
    {formula : Formula BoundCondition}
    (ran : outcome domain.bind session = (.ok formula, after))
    (dialect : Dialect) :
    (Sql.Test.ofFormula dialect formula).columns =
      (formula.leaves.flatMap BoundCondition.columns).map Column.shown := by
  rw [Sql.Test.columns, (Sql.Test.expresses_ofFormula dialect formula).predicates_eq,
    List.flatMap_map, List.map_flatMap]
  exact List.flatMap_congr fun condition inLeaves =>
    Sql.Predicate.columns_ofCondition dialect (Domain.takes_of_bind ran condition inLeaves)

/-- An operation resolves these fields, and what it gives shows their columns. -/
def Shows
    {Result : Type}
    (act : Resolving Result)
    (paths : List String)
    (shown : Result → List (String × String)) : Prop :=
  ∀ {session after : Session} {result : Result},
    outcome act session = (.ok result, after) →
    ∃ columns, outcome (resolveColumns paths) session = (.ok columns, after) ∧
      shown result = columns.map Column.shown

/-- Operations one after the other show the columns of one after the other. -/
theorem Shows.mapM
    {Entry Result : Type}
    {act : Entry → Resolving Result}
    {paths : Entry → List String}
    {shown : Result → List (String × String)}
    (each : ∀ entry, Shows (act entry) (paths entry) shown)
    (entries : List Entry) :
    Shows (entries.mapM act) (entries.flatMap paths) (List.flatMap shown) := by
  induction entries with
  | nil =>
      intro session after results ran
      cases ran
      exact ⟨[], rfl, rfl⟩
  | cons entry rest inductionHypothesis =>
      intro session after results ran
      obtain ⟨first, middle, others, firstRan, restRan, rfl⟩ :=
        outcome_mapM_cons_eq_ok_iff.mp ran
      obtain ⟨columns, resolved, shownFirst⟩ := each entry firstRan
      obtain ⟨restColumns, restResolved, shownRest⟩ := inductionHypothesis restRan
      refine ⟨columns ++ restColumns,
        outcome_resolveColumns_append resolved restResolved, ?_⟩
      rw [List.flatMap_cons, shownFirst, shownRest, List.map_append]

/-- The fields in an entry, in the order in which they are resolved. -/
def SelectField.paths : SelectField → List String
  | .column path => [path]
  | .call function => function.paths

/-- The field in an order item. -/
def OrderItem.pathsOf (item : String) : List String :=
  match OrderItem.read item with
  | .error _ => []
  | .ok order => [order.path]

theorem SelectField.shows_bind (field : SelectField) :
    Shows field.bind field.paths Sql.Term.columns := by
  intro session after term ran
  cases field with
  | column path =>
      obtain ⟨resolved, _, answered, ran⟩ := outcome_bind_eq_ok_iff.mp ran
      cases ran
      exact ⟨_, outcome_resolveColumns_singleton answered, by simp⟩
  | call function =>
      obtain ⟨call, _, callRan, ran⟩ := outcome_bind_eq_ok_iff.mp ran
      cases ran
      exact ⟨_, FunctionCall.resolveColumns_of_bind callRan,
        Sql.Term.columns_ofCall (FunctionCall.takes_of_bind callRan)⟩

theorem OrderItem.shows_bind (item : String) :
    Shows (OrderItem.bind item) (OrderItem.pathsOf item)
      (Sql.Term.columns ∘ Sql.Ordering.term) := by
  intro session after ordering ran
  rw [OrderItem.pathsOf]
  rw [OrderItem.bind] at ran
  cases read : OrderItem.read item with
  | error error =>
      rw [read] at ran
      cases ran
  | ok order =>
      rw [read] at ran
      obtain ⟨resolved, _, answered, ran⟩ := outcome_bind_eq_ok_iff.mp ran
      cases ran
      exact ⟨_, outcome_resolveColumns_singleton answered, by simp⟩

end Binding

namespace Query

/-- The fields in a selection, in the order in which they are resolved. -/
def selectionPaths
    (fields : List SelectField)
    (options : SelectOptions) : List String :=
  fields.flatMap SelectField.paths
    ++ options.orderBy.flatMap OrderItem.pathsOf
    ++ options.groupBy

theorem shows_bindSelection
    (fields : List SelectField)
    (options : SelectOptions) :
    Shows (bindSelection fields options) (selectionPaths fields options)
      fun selection => selection.1.flatMap (Sql.Term.columns ∘ Prod.fst)
        ++ selection.2.1.flatMap (Sql.Term.columns ∘ Sql.Ordering.term)
        ++ selection.2.2.flatMap Sql.Term.columns := by
  intro session after selection ran
  have showsColumn : ∀ field, Shows (bindColumn options.names field) field.paths
      (Sql.Term.columns ∘ Prod.fst) := by
    intro field session after column ran
    obtain ⟨term, _, termRan, ran⟩ := outcome_bind_eq_ok_iff.mp ran
    cases ran
    exact field.shows_bind termRan
  have showsGroup : ∀ path, Shows (SelectField.column path).bind [path]
      Sql.Term.columns :=
    fun path => (SelectField.column path).shows_bind
  obtain ⟨columns, _, columnsRan, ran⟩ := outcome_bind_eq_ok_iff.mp ran
  obtain ⟨orderBy, _, orderByRan, ran⟩ := outcome_bind_eq_ok_iff.mp ran
  obtain ⟨groupBy, _, groupByRan, ran⟩ := outcome_bind_eq_ok_iff.mp ran
  cases ran
  obtain ⟨columnsShown, resolved, columnsEqual⟩ := Shows.mapM showsColumn fields columnsRan
  obtain ⟨ordersShown, ordersResolved, ordersEqual⟩ :=
    Shows.mapM OrderItem.shows_bind options.orderBy orderByRan
  obtain ⟨groupsShown, groupsResolved, groupsEqual⟩ :=
    Shows.mapM showsGroup options.groupBy groupByRan
  rw [List.flatMap_singleton'] at groupsResolved
  refine ⟨columnsShown ++ ordersShown ++ groupsShown,
    outcome_resolveColumns_append
      (outcome_resolveColumns_append resolved ordersResolved) groupsResolved, ?_⟩
  simp only [columnsEqual, ordersEqual, groupsEqual, List.map_append]

end Query
end DomainSql
