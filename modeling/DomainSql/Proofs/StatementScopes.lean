import DomainSql.Proofs.FilterJoins
import DomainSql.Proofs.QueryHistory
import DomainSql.Proofs.StatementColumns
import Mathlib.Data.List.Nodup

/-!
# Scopes of statements

A statement of a query shows the columns of the last selection and of a filter, both of
which have been resolved to tables at their own times: the selection in a new session,
the filter in what other filters have made of this session since. Sessions only grow, so
the aliases of these tables still mean what they meant then, whichever filters have
succeeded or failed in between.
-/

namespace DomainSql

/-! ## Aliases and the tables they mean -/

/-- The aliases in the condition of a join. -/
def Join.aliases (join : Join) : List String :=
  [join.left.aliasName, join.right.aliasName]

namespace Sql.Statement

variable {statement : Statement}

/-- The aliases that a statement uses, wherever it does. -/
def aliases (statement : Statement) : List String :=
  statement.columns.filterMap OutputColumn.whole?
    ++ (statement.selectedColumns ++ statement.test.columns).map Prod.fst
    ++ statement.joins.flatMap Join.aliases

/-- The table is the root table of a statement, or the right table of a join of it that
is the only one with the alias of this table. -/
def Introduces
    (statement : Statement)
    (table : Table) : Prop :=
  table = statement.root ∨
    ∃ front join back, statement.joins = front ++ join :: back ∧
      join.right = table ∧
      ∀ other ∈ front ++ back, other.right.aliasName ≠ table.aliasName

/-- Every alias in a statement is that of its root table, which is `t0`, or of exactly
one join, and in the condition of a join it is that of the root table, of the join itself,
or of an earlier one. -/
structure Scoped (statement : Statement) : Prop where
  rootAlias : statement.root.aliasName = "t0"
  introduced : ∀ aliasName ∈ statement.aliases,
    ∃ table, table.aliasName = aliasName ∧ statement.Introduces table
  inOrder : ∀ front join back, statement.joins = front ++ join :: back →
    ∀ aliasName ∈ join.aliases,
      aliasName = "t0" ∨ aliasName = join.right.aliasName ∨
        ∃ earlier ∈ front, aliasName = earlier.right.aliasName

/-- A statement with the joins of a session introduces the tables of the session. -/
theorem introduces_of_mem
    {session : Session}
    (wellScoped : session.WellScoped)
    (root_eq : statement.root = session.root)
    (joins_eq : statement.joins = session.joins)
    {table : Table}
    (inTables : table ∈ Session.introduced session.root session.joins) :
    statement.Introduces table := by
  rcases List.mem_cons.mp inTables with isRoot | inRights
  · exact .inl (isRoot.trans root_eq.symm)
  · obtain ⟨join, inJoins, rfl⟩ := List.mem_map.mp inRights
    obtain ⟨front, back, split⟩ := List.append_of_mem inJoins
    refine .inr ⟨front, join, back, joins_eq.trans split, rfl, ?_⟩
    have nodup := wellScoped.inOrder.nodup_aliases wellScoped.rootAlias
    rw [split, Session.introduced, List.map_cons, List.nodup_cons, List.map_map,
      List.map_append, List.map_cons, List.nodup_middle, ← List.map_append,
      List.nodup_cons] at nodup
    intro other inOthers same
    exact nodup.2.1 (List.mem_map.mpr ⟨other, inOthers, same⟩)

/-- A statement is scoped when it has the joins of a session and only mentions tables of
this session. -/
theorem scoped_of_wellScoped
    {session : Session}
    (wellScoped : session.WellScoped)
    (root_eq : statement.root = session.root)
    (joins_eq : statement.joins = session.joins)
    (whole : ∀ aliasName ∈ statement.columns.filterMap OutputColumn.whole?,
      aliasName = session.root.aliasName)
    {columns : List Column}
    (shown : statement.selectedColumns ++ statement.test.columns =
      columns.map Column.shown)
    (inTables : ∀ column ∈ columns,
      column.table ∈ Session.introduced session.root session.joins) :
    statement.Scoped where
  rootAlias := root_eq ▸ wellScoped.rootAlias
  introduced := by
    have introduces : ∀ {table : Table},
        table ∈ Session.introduced session.root session.joins →
        statement.Introduces table :=
      introduces_of_mem wellScoped root_eq joins_eq
    intro aliasName inAliases
    rw [aliases, shown] at inAliases
    simp only [List.mem_append, List.mem_map, List.mem_flatMap] at inAliases
    rcases inAliases with (inWhole | ⟨_, ⟨column, inColumns, rfl⟩, rfl⟩) |
      ⟨join, inJoins, inAliases⟩
    · exact ⟨_, (whole aliasName inWhole).symm, introduces List.mem_cons_self⟩
    · exact ⟨column.table, rfl, introduces (inTables column inColumns)⟩
    · rw [joins_eq] at inJoins
      rw [Join.aliases, List.mem_pair] at inAliases
      rcases inAliases with rfl | rfl
      · obtain ⟨front, back, split⟩ := List.append_of_mem inJoins
        have inFront := wellScoped.inOrder.left_mem_introduced split
        refine ⟨join.left, rfl, introduces ?_⟩
        rw [split, Session.introduced_append]
        exact List.mem_append_left _ inFront
      · exact ⟨join.right, rfl,
          introduces (List.mem_cons_of_mem _ (List.mem_map_of_mem inJoins))⟩
  inOrder := by
    intro front join back split aliasName inAliases
    rw [Join.aliases, List.mem_pair] at inAliases
    rcases inAliases with rfl | rfl
    · rw [joins_eq] at split
      have inFront := wellScoped.inOrder.left_mem_introduced split
      rcases List.mem_cons.mp inFront with isRoot | inRights
      · exact .inl (isRoot ▸ wellScoped.rootAlias)
      · obtain ⟨earlier, inFront, same⟩ := List.mem_map.mp inRights
        exact .inr (.inr ⟨earlier, inFront, same ▸ rfl⟩)
    · exact .inr (.inl rfl)

end Sql.Statement

/-! ## The selection that a query shows -/

namespace Query

/-- The selection of a call that selects. -/
def Call.selection? : Call → Option (List SelectField × SelectOptions)
  | .select fields options => some (fields, options)
  | .filter _ => none
  | .toSql _ _ => none

/-- The last selection among calls, or the empty one. -/
def lastSelection (calls : List Call) : List SelectField × SelectOptions :=
  (calls.filterMap Call.selection?).getLast?.getD ([], ⟨[], [], none, none, []⟩)

/-- The last selection among the calls has succeeded, if there is one. -/
def LastSelects
    (query : Query)
    (calls : List Call) : Prop :=
  ∀ front fields options back, calls = front ++ .select fields options :: back →
    (∀ call ∈ back, call.filter?.isSome) →
    (outcome (Call.select fields options).answer (query.run front)).1 = .ok .selected

/-- The query shows the selection, which has been bound in a new session, and its own
session has come about from there. -/
def ShowsSelection
    (query : Query)
    (selection : List SelectField × SelectOptions) : Prop :=
  ∃ session,
    outcome (bindSelection selection.1 selection.2)
        (Session.start query.table query.foreignKeys) =
      (.ok (query.columns, query.orderBy, query.groupBy), session) ∧
    session.Resolves query.session

variable {query after : Query} {calls : List Call}

theorem run_concat
    (query : Query)
    (calls : List Call)
    (call : Call) :
    query.run (calls ++ [call]) = call.after (query.run calls) := by
  rw [run, List.foldl_append]
  rfl

/-- What the calls up to the last one ask of the last selection, too. -/
theorem LastSelects.of_concat
    {call : Call}
    (lastSelects : query.LastSelects (calls ++ [call]))
    (filters : call.filter?.isSome) :
    query.LastSelects calls := by
  intro front fields options back split onlyFilters
  refine lastSelects front fields options (back ++ [call]) (by simp [split]) ?_
  simpa [or_imp, forall_and, filters] using onlyFilters

/-- However calls that filter have ended, a query shows its last selection. -/
theorem showsSelection_run
    (table : String)
    (foreignKeys : ForeignKeys)
    (dialect : Dialect)
    (lastSelects : (start table foreignKeys dialect).LastSelects calls) :
    ((start table foreignKeys dialect).run calls).ShowsSelection
      (lastSelection calls) := by
  induction calls using List.reverseRecOn with
  | nil => exact ⟨Session.start table foreignKeys, rfl, .refl _⟩
  | append_singleton calls call inductionHypothesis =>
      rw [run_concat]
      have settled :=
        (settled_start table foreignKeys dialect).run calls
      cases filters : call.filter? with
      | some domain =>
          have same : lastSelection (calls ++ [call]) = lastSelection calls := by
            cases call <;> simp_all [lastSelection, Call.selection?, Call.filter?]
          obtain ⟨session, bound, resolves⟩ :=
            inductionHypothesis (lastSelects.of_concat (by rw [filters]; rfl))
          rw [same, after_of_filter filters]
          exact ⟨session, bound, resolves.trans
            (domain.resolvesFields_bind.keeps_coherent settled.otherCoherent rfl).2⟩
      | none =>
          cases call with
          | select fields options =>
              have same : lastSelection (calls ++ [.select fields options]) =
                  (fields, options) := by
                simp [lastSelection, Call.selection?]
              have succeeded := lastSelects calls fields options [] rfl (by simp)
              rw [same, Call.after]
              rw [outcome_selectAnswer] at succeeded ⊢
              rcases ran : outcome (bindSelection fields options) _ with
                ⟨error | selection, session⟩
              · rw [ran] at succeeded
                cases succeeded
              · exact ⟨session, ran, .refl session⟩
          | filter domain => cases filters
          | toSql domain dialect => cases filters

/-- Calls keep the joins of the session of a query in order. -/
theorem wellScoped_run
    (wellScoped : query.session.WellScoped)
    (calls : List Call) :
    (query.run calls).session.WellScoped := by
  induction calls generalizing query with
  | nil => exact wellScoped
  | cons call rest inductionHypothesis =>
      have start := Session.WellScoped.start query.table query.foreignKeys
      exact inductionHypothesis (Call.keeps_session
        (fun resolvesFields _ kept => kept.resolvesFields resolvesFields)
        start wellScoped call)

/-! ## Statements over whole histories -/

/-- The answer of a call that has this statement. -/
def Call.answerOf (statement : Sql.Statement) : Call → Answer
  | .select _ _ => .selected
  | .filter _ => .statement statement.unkeyed
  | .toSql _ dialect => .text (statement.text dialect)

/-- A call that filters and succeeds has bound its domain, and answers with the statement
of the query in the session of the domain. -/
theorem exists_statement_of_answer
    {call : Call}
    {domain : Domain}
    (filters : call.filter? = some domain)
    {answer : Answer}
    (succeeded : outcome call.answer query = (.ok answer, after)) :
    ∃ dialect formula,
      outcome domain.bind query.session = (.ok formula, after.session) ∧
      after = query.withSession after.session ∧
      answer = call.answerOf (after.statementOf dialect formula) := by
  have ofStatement : ∀ {dialect : Dialect} {change : Sql.Statement → Answer},
      outcome (do
        let statement ← statement domain dialect
        pure (change statement)) query = (.ok answer, after) →
      ∃ formula,
        outcome domain.bind query.session = (.ok formula, after.session) ∧
        after = query.withSession after.session ∧
        answer = change (after.statementOf dialect formula) := by
    intro dialect change ran
    rw [outcome_answer_of_statement] at ran
    rcases bound : outcome domain.bind query.session with ⟨error | formula, session⟩
    · rw [bound] at ran
      cases congrArg Prod.fst ran
    · rw [bound] at ran
      obtain ⟨answered, rfl⟩ := Prod.mk.inj ran
      rw [checkedStatement] at answered
      cases checked : Sql.Statement.checkJoins dialect
          (query.withSession session).session.joins with
      | error error =>
          rw [checked] at answered
          cases answered
      | ok _ =>
          rw [checked] at answered
          exact ⟨formula, rfl, rfl, (Except.ok.inj answered).symm⟩
  cases call with
  | select fields options => cases filters
  | filter inner =>
      obtain rfl := Option.some.inj filters
      rw [outcome_filter] at succeeded
      exact ⟨_, ofStatement succeeded⟩
  | toSql inner dialect =>
      obtain rfl := Option.some.inj filters
      rw [outcome_toSql] at succeeded
      exact ⟨_, ofStatement succeeded⟩

/-- A statement of a query shows the columns of the selection of the query. -/
theorem selectedColumns_statementOf
    (query : Query)
    (dialect : Dialect)
    (formula : Formula BoundCondition) :
    (query.statementOf dialect formula).selectedColumns =
      query.columns.flatMap (Sql.Term.columns ∘ Prod.fst)
        ++ query.orderBy.flatMap (Sql.Term.columns ∘ Sql.Ordering.term)
        ++ query.groupBy.flatMap Sql.Term.columns := by
  have outputs : query.outputColumns.flatMap Sql.OutputColumn.columns =
      query.columns.flatMap (Sql.Term.columns ∘ Prod.fst) := by
    rw [outputColumns]
    cases query.columns with
    | nil => rfl
    | cons column rest =>
        rw [List.isEmpty_cons, if_neg Bool.false_ne_true, List.flatMap_map]
        rfl
  rw [Sql.Statement.selectedColumns, statementOf, outputs]

/-- The only table that a statement of a query selects as a whole is the root table. -/
theorem whole_statementOf
    (query : Query)
    (dialect : Dialect)
    (formula : Formula BoundCondition) :
    ∀ aliasName ∈ (query.statementOf dialect formula).columns.filterMap
        Sql.OutputColumn.whole?,
      aliasName = query.session.root.aliasName := by
  rw [statementOf, outputColumns]
  split
  · simp [Sql.OutputColumn.whole?]
  · simp [Sql.OutputColumn.whole?]

/-- Let calls have been made of a query, the last selection among them with success, and
let another one filter and succeed. Its statement is scoped. The columns that it selects,
sorts by and groups by are those that the fields of the last selection stood for in the
new session of this selection, and the columns of its test are those that the fields of
the domain stood for in the session that the calls have left. It introduces the tables of
all of them. -/
theorem statements_are_scoped_over_histories
    (table : String)
    (foreignKeys : ForeignKeys)
    (own : Dialect)
    (lastSelects : (start table foreignKeys own).LastSelects calls)
    {call : Call}
    {domain : Domain}
    (filters : call.filter? = some domain)
    {answer : Answer}
    (succeeded : outcome call.answer ((start table foreignKeys own).run calls) =
      (.ok answer, after)) :
    ∃ dialect formula selected selectionSession,
      let statement := after.statementOf dialect formula
      let selection := lastSelection calls
      answer = call.answerOf statement ∧
      statement.Scoped ∧
      outcome (Session.resolveColumns (selectionPaths selection.1 selection.2))
          (Session.start table foreignKeys) = (.ok selected, selectionSession) ∧
      statement.selectedColumns = selected.map Column.shown ∧
      outcome domain.bind ((start table foreignKeys own).run calls).session =
        (.ok formula, after.session) ∧
      outcome (Session.resolveColumns domain.paths)
          ((start table foreignKeys own).run calls).session =
        (.ok (formula.leaves.reverse.flatMap BoundCondition.columns),
          after.session) ∧
      statement.test.columns =
        (formula.leaves.flatMap BoundCondition.columns).map Column.shown ∧
      ∀ column ∈ selected ++ formula.leaves.flatMap BoundCondition.columns,
        statement.Introduces column.table := by
  obtain ⟨dialect, formula, bound, after_eq, answer_eq⟩ :=
    exists_statement_of_answer filters succeeded
  have settled : ((start table foreignKeys own).run calls).Settled :=
    (settled_start table foreignKeys own).run calls
  have wellScoped : after.session.WellScoped := by
    have before : ((start table foreignKeys own).run calls).session.WellScoped :=
      wellScoped_run (.start table foreignKeys) calls
    have kept := before.resolvesFields domain.resolvesFields_bind
    rwa [bound] at kept
  obtain ⟨selectionSession, selectionBound, sinceSelection⟩ :=
    showsSelection_run table foreignKeys own lastSelects
  obtain ⟨sameTable, sameForeignKeys, _⟩ := run_keeps (start table foreignKeys own) calls
  rw [sameTable, sameForeignKeys] at selectionBound
  obtain ⟨selected, selectedRan, selectedShown⟩ := shows_bindSelection _ _ selectionBound
  obtain ⟨_, selectedTables⟩ :=
    (Session.coherent_start table foreignKeys).table_mem_of_resolveColumns selectedRan
  have filterRan := Domain.resolveColumns_of_bind bound
  obtain ⟨sinceCalls, filterTables⟩ :=
    settled.otherCoherent.table_mem_of_resolveColumns filterRan
  have testShown := Domain.columns_ofFormula_of_bind bound dialect
  -- What has been resolved at either time is in the session of the statement.
  have inTables : ∀ column ∈ selected ++ formula.leaves.flatMap BoundCondition.columns,
      column.table ∈ Session.introduced after.session.root after.session.joins := by
    intro column inColumns
    rcases List.mem_append.mp inColumns with inSelected | inFormula
    · exact (sinceSelection.trans sinceCalls).introduced_subset
        (selectedTables column inSelected)
    · refine filterTables column ?_
      simpa using inFormula
  have selection_eq : (after.statementOf dialect formula).selectedColumns =
      selected.map Column.shown := by
    rw [← selectedShown, after_eq]
    exact selectedColumns_statementOf _ _ _
  refine ⟨dialect, formula, selected, selectionSession, answer_eq, ?_, selectedRan,
    selection_eq, bound, filterRan, testShown, ?_⟩
  · refine Sql.Statement.scoped_of_wellScoped wellScoped rfl rfl
      (whole_statementOf after dialect formula) ?_ inTables
    rw [selection_eq, List.map_append, ← testShown]
    rfl
  · exact fun column inColumns => Sql.Statement.introduces_of_mem wellScoped rfl rfl
      (inTables column inColumns)

/-- A statement behind a selection with a joined column, a filter that fails after it has
joined another table, and one that succeeds. -/
theorem statement_is_scoped_behind_failed_filter :
    let foreignKeys : ForeignKeys := fun table field =>
      if table = "orders" ∧ field = "partner" then
        some ⟨"partners", "partner_id", "id"⟩
      else if table = "partners" ∧ field = "country" then
        some ⟨"countries", "country_id", "id"⟩
      else none
    let test : String → Item := fun field =>
      .condition ⟨field, "=", .literal .null⟩
    let query := start "orders" foreignKeys .sqlite
    let calls : List Call :=
      [.select [.call ⟨.count, [.field "partner.name"]⟩]
          ⟨["partner(L).name.desc"], ["partner.name"], none, none, []⟩,
        .toSql [test "missing.name", test "partner.country.code"] .postgres,
        .filter [test "partner.country(L).code"]]
    let call : Call := .toSql [test "partner(L).country.code", test "state"] .mysql
    query.LastSelects calls ∧
    ∃ answer after statement,
      outcome call.answer (query.run calls) = (.ok answer, after) ∧
      answer = call.answerOf statement ∧ statement.Scoped := by
  intro foreignKeys test query calls call
  have lastSelects : query.LastSelects calls := by
    intro front fields options back split onlyFilters
    obtain ⟨rfl, rfl, rfl⟩ : front = [] ∧
        fields = [.call ⟨.count, [.field "partner.name"]⟩] ∧
        options = ⟨["partner(L).name.desc"], ["partner.name"], none, none, []⟩ := by
      rcases front with _ | ⟨_, _ | ⟨_, _ | ⟨_, _⟩⟩⟩ <;> simp_all [calls]
    have bound : ∃ selection session,
        outcome (bindSelection [.call ⟨.count, [.field "partner.name"]⟩]
          ⟨["partner(L).name.desc"], ["partner.name"], none, none, []⟩)
          (Session.start "orders" foreignKeys) = (.ok selection, session) :=
      exists_ok_of_isSome (by decide +kernel)
    obtain ⟨selection, session, ran⟩ := bound
    have unchanged : query.run [] = query := rfl
    have new : Session.start query.table query.foreignKeys =
      Session.start "orders" foreignKeys := rfl
    rw [outcome_selectAnswer, unchanged, new, ran]
  have answers : ∃ answer after,
      outcome call.answer (query.run calls) = (.ok answer, after) :=
    exists_ok_of_isSome (by decide +kernel)
  obtain ⟨answer, after, succeeded⟩ := answers
  obtain ⟨_, _, _, _, answered, wellScoped, _⟩ :=
    statements_are_scoped_over_histories "orders" foreignKeys .sqlite lastSelects
      (show call.filter? = some _ from rfl) succeeded
  exact ⟨lastSelects, answer, after, _, succeeded, answered, wellScoped⟩

end Query
end DomainSql
