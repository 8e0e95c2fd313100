import DomainSql.Proofs.InterchangeableSessions
import DomainSql.Sql.Statement

/-!
# Histories of a query

A query comes about by selections, filters and statements as text, each of which may
fail. Between two selections its session only resolves fields; a selection starts the
session anew and brings its columns, orders, groups and limits into the query only
when nothing has failed.
-/

namespace DomainSql

namespace Sql.Statement

/-- A statement without the keys of its joins, which it does not show. -/
def unkeyed (statement : Statement) : Statement :=
  { statement with joins := statement.joins.map Join.unkeyed }

/-- The text of a statement does not depend on the keys of its joins. -/
theorem text_unkeyed
    (statement : Statement)
    (dialect : Dialect) :
    statement.unkeyed.text dialect = statement.text dialect := by
  have joins : (statement.joins.map Join.unkeyed).flatMap joinTokens =
      statement.joins.flatMap joinTokens := by
    rw [List.flatMap_map]
    rfl
  rw [text, text, tokens, tokens]
  simp only [unkeyed, joins]

/-- A dialect has joins or not, whatever their keys. -/
theorem checkJoins_unkeyed
    (dialect : Dialect)
    (joins : List Join) :
    checkJoins dialect (joins.map Join.unkeyed) = checkJoins dialect joins := by
  rw [checkJoins, checkJoins, List.find?_map]
  have same : (fun join : Join => !dialect.supports join.kind) ∘ Join.unkeyed =
      fun join => !dialect.supports join.kind := rfl
  rw [same]
  cases joins.find? fun join => !dialect.supports join.kind with
  | none => rfl
  | some join => rfl

/-- Postgres has every join. -/
theorem checkJoins_postgres (joins : List Join) :
    checkJoins .postgres joins = .ok () := by
  have none_unsupported :
      joins.find? (fun join => !Dialect.postgres.supports join.kind) = none := by
    rw [List.find?_eq_none]
    intro join _
    simp [Dialect.supports]
  rw [checkJoins, none_unsupported]

end Sql.Statement

namespace Query

/-! ## Single operations -/

/-- A query with another session. -/
def withSession
    (query : Query)
    (session : Session) : Query :=
  { query with session := session }

@[simp] theorem withSession_session
    (query : Query)
    (session : Session) :
    (query.withSession session).session = session := rfl

@[simp] theorem withSession_withSession
    (query : Query)
    (session next : Session) :
    (query.withSession session).withSession next = query.withSession next := rfl

@[simp] theorem withSession_self (query : Query) :
    query.withSession query.session = query := rfl

@[simp] theorem outcome_inSession
    {Result : Type}
    (act : Resolving Result)
    (query : Query) :
    outcome (inSession act) query =
      ((outcome act query.session).1,
        query.withSession (outcome act query.session).2) := rfl

/-- A query with what a selection brings into it. -/
def selected
    (query : Query)
    (selection : List (Sql.Term × String) × List Sql.Ordering × List Sql.Term)
    (options : SelectOptions) : Query :=
  { query with
    columns := selection.1
    orderBy := selection.2.1
    groupBy := selection.2.2
    limit := options.limit
    offset := options.offset }

/-- Selecting starts a new session, and changes nothing else unless it succeeds. -/
theorem outcome_select
    (fields : List SelectField)
    (options : SelectOptions)
    (query : Query) :
    outcome (select fields options) query =
      match outcome (bindSelection fields options)
          (Session.start query.table query.foreignKeys) with
      | (.error error, session) => (.error error, query.withSession session)
      | (.ok selection, session) =>
          (.ok (), (query.withSession session).selected selection options) := by
  rw [select, outcome_bind, outcome_modify]
  simp only
  rw [outcome_bind, outcome_inSession]
  simp only
  rcases outcome (bindSelection fields options)
    (Session.start query.table query.foreignKeys) with ⟨error | selection, session⟩
  · rfl
  · rfl

/-- The statement of a query whose joins the dialect is asked for. -/
def checkedStatement
    (query : Query)
    (dialect : Dialect)
    (formula : Formula BoundCondition) : Except Error Sql.Statement := do
  Sql.Statement.checkJoins dialect query.session.joins
  pure (query.statementOf dialect formula)

/-- A statement is made in the session of the query, which keeps the joins of the
filter. -/
theorem outcome_statement
    (domain : Domain)
    (dialect : Dialect)
    (query : Query) :
    outcome (statement domain dialect) query =
      match outcome domain.bind query.session with
      | (.error error, session) => (.error error, query.withSession session)
      | (.ok formula, session) =>
          ((query.withSession session).checkedStatement dialect formula,
            query.withSession session) := by
  rw [statement, outcome_bind, outcome_inSession]
  rcases outcome domain.bind query.session with ⟨error | formula, session⟩
  · rfl
  · simp only [outcome_bind, outcome_get]
    rw [checkedStatement]
    cases Sql.Statement.checkJoins dialect (query.withSession session).session.joins with
    | error error => rfl
    | ok checked => rfl

/-! ## Calls -/

/-- A call of a query. -/
inductive Call
  | select (fields : List SelectField) (options : SelectOptions)
  | filter (domain : Domain)
  | toSql (domain : Domain) (dialect : Dialect)

/-- What a call that succeeds answers: a filter its statement, without the keys of the
joins. -/
inductive Answer
  | selected
  | statement (shown : Sql.Statement)
  | text (written : String)

/-- A call as an operation on the query. -/
def Call.answer : Call → Querying Answer
  | .select fields options => do
      Query.select fields options
      pure .selected
  | .filter domain => do
      let statement ← Query.filter domain
      pure (.statement statement.unkeyed)
  | .toSql domain dialect => do
      let text ← Query.toSql domain dialect
      pure (.text text)

/-- The domain of a call that filters. -/
def Call.filter? : Call → Option Domain
  | .select _ _ => none
  | .filter domain => some domain
  | .toSql domain _ => some domain

/-- What a call does to a query, whatever it answers. -/
def Call.after
    (query : Query)
    (call : Call) : Query :=
  (outcome call.answer query).2

/-- The query after calls. -/
def run
    (query : Query)
    (calls : List Call) : Query :=
  calls.foldl Call.after query

/-- The answers of calls. A call that fails is followed by the others. -/
def answers
    (query : Query) : List Call → List (Except Error Answer)
  | [] => []
  | call :: rest =>
      (outcome call.answer query).1 :: (call.after query).answers rest

@[simp] theorem run_nil (query : Query) : query.run [] = query := rfl

@[simp] theorem run_cons
    (query : Query)
    (call : Call)
    (rest : List Call) :
    query.run (call :: rest) = (call.after query).run rest := rfl

theorem answers_concat
    (query : Query)
    (front : List Call)
    (call : Call) :
    query.answers (front ++ [call]) =
      query.answers front ++ [(outcome call.answer (query.run front)).1] := by
  induction front generalizing query with
  | nil => rfl
  | cons first rest inductionHypothesis =>
      rw [List.cons_append, answers, answers, run_cons, inductionHypothesis,
        List.cons_append]

/-- What is made of the statement of a call that has one. -/
theorem outcome_answer_of_statement
    (change : Sql.Statement → Answer)
    (domain : Domain)
    (dialect : Dialect)
    (query : Query) :
    outcome (do
        let statement ← statement domain dialect
        pure (change statement)) query =
      match outcome domain.bind query.session with
      | (.error error, session) => (.error error, query.withSession session)
      | (.ok formula, session) =>
          (((query.withSession session).checkedStatement dialect formula).map change,
            query.withSession session) := by
  rw [bind_pure_comp, outcome_map, outcome_statement]
  rcases outcome domain.bind query.session with ⟨error | formula, session⟩
  · rfl
  · simp only
    cases (query.withSession session).checkedStatement dialect formula with
    | error error => rfl
    | ok statement => rfl

theorem outcome_selectAnswer
    (fields : List SelectField)
    (options : SelectOptions)
    (query : Query) :
    outcome (Call.select fields options).answer query =
      match outcome (bindSelection fields options)
          (Session.start query.table query.foreignKeys) with
      | (.error error, session) => (.error error, query.withSession session)
      | (.ok selection, session) =>
          (.ok .selected, (query.withSession session).selected selection options) := by
  rw [Call.answer, outcome_bind, outcome_select]
  rcases outcome (bindSelection fields options)
    (Session.start query.table query.foreignKeys) with ⟨error | selection, session⟩
  · rfl
  · rfl

theorem outcome_filter
    (domain : Domain)
    (query : Query) :
    outcome (Call.filter domain).answer query =
      outcome (do
        let statement ← statement domain query.dialect
        pure (.statement statement.unkeyed)) query := by
  rw [Call.answer, filter, bind_assoc, outcome_bind, outcome_get]

theorem outcome_toSql
    (domain : Domain)
    (dialect : Dialect)
    (query : Query) :
    outcome (Call.toSql domain dialect).answer query =
      outcome (do
        let statement ← statement domain dialect
        pure (.text (statement.text dialect))) query := by
  rw [Call.answer, toSql, bind_assoc]
  rfl

/-- Making a statement leaves the session in which the filter has been bound, whether
or not the statement is made. -/
theorem outcome_answer_of_statement_snd
    (change : Sql.Statement → Answer)
    (domain : Domain)
    (dialect : Dialect)
    (query : Query) :
    (outcome (do
        let statement ← statement domain dialect
        pure (change statement)) query).2 =
      query.withSession (outcome domain.bind query.session).2 := by
  rw [outcome_answer_of_statement]
  rcases outcome domain.bind query.session with ⟨error | formula, session⟩ <;> rfl

/-- A call that filters leaves the session in which its domain has been bound, whatever
it answers. -/
theorem after_of_filter
    {call : Call}
    {domain : Domain}
    (filters : call.filter? = some domain)
    (query : Query) :
    call.after query =
      query.withSession (outcome domain.bind query.session).2 := by
  cases call with
  | select fields options => cases filters
  | filter inner =>
      obtain rfl := Option.some.inj filters
      rw [Call.after, outcome_filter, outcome_answer_of_statement_snd]
  | toSql inner dialect =>
      obtain rfl := Option.some.inj filters
      rw [Call.after, outcome_toSql, outcome_answer_of_statement_snd]

/-- Calls keep the table, the foreign keys and the dialect of a query. -/
theorem after_keeps
    (query : Query)
    (call : Call) :
    (call.after query).table = query.table ∧
      (call.after query).foreignKeys = query.foreignKeys ∧
      (call.after query).dialect = query.dialect := by
  cases filters : call.filter? with
  | some domain =>
      rw [after_of_filter filters]
      exact ⟨rfl, rfl, rfl⟩
  | none =>
      cases call with
      | select fields options =>
          rw [Call.after, outcome_selectAnswer]
          rcases outcome (bindSelection fields options)
            (Session.start query.table query.foreignKeys) with
            ⟨error | selection, session⟩ <;> exact ⟨rfl, rfl, rfl⟩
      | filter domain => cases filters
      | toSql domain dialect => cases filters

theorem run_keeps
    (query : Query)
    (calls : List Call) :
    (query.run calls).table = query.table ∧
      (query.run calls).foreignKeys = query.foreignKeys ∧
      (query.run calls).dialect = query.dialect := by
  induction calls generalizing query with
  | nil => exact ⟨rfl, rfl, rfl⟩
  | cons call rest inductionHypothesis =>
      obtain ⟨table, foreignKeys, dialect⟩ := inductionHypothesis (call.after query)
      obtain ⟨sameTable, sameForeignKeys, sameDialect⟩ := after_keeps query call
      exact ⟨table.trans sameTable, foreignKeys.trans sameForeignKeys,
        dialect.trans sameDialect⟩

/-- What a new session has and what resolving fields keeps, every call keeps of the
session of a query, whether or not it fails. -/
theorem Call.keeps_session
    {kept : Session → Prop}
    (resolves : ∀ {Result : Type} {act : Resolving Result},
      Session.ResolvesFields act → ∀ session, kept session →
        kept (outcome act session).2)
    {query : Query}
    (new : kept (Session.start query.table query.foreignKeys))
    (before : kept query.session)
    (call : Call) :
    kept (call.after query).session := by
  cases filters : call.filter? with
  | some domain =>
      rw [after_of_filter filters]
      exact resolves domain.resolvesFields_bind query.session before
  | none =>
      cases call with
      | select fields options =>
          have resolved := resolves (resolvesFields_bindSelection fields options) _ new
          rw [Call.after, outcome_selectAnswer]
          rcases ran : outcome (bindSelection fields options)
            (Session.start query.table query.foreignKeys) with
            ⟨error | selection, session⟩ <;>
          · rw [ran] at resolved
            exact resolved
      | filter domain => cases filters
      | toSql domain dialect => cases filters

/-! ## Queries that have come about -/

/-- The session of the query has come about by resolving fields from the root table of
the query. -/
def Settled (query : Query) : Prop :=
  (Session.start query.table query.foreignKeys).Siblings query.session

end Query

namespace Session.Siblings

variable {session other third : Session}

theorem symm (siblings : session.Siblings other) : other.Siblings session where
  coherent := siblings.otherCoherent
  otherCoherent := siblings.coherent
  root := siblings.root.symm
  foreignKeys := siblings.foreignKeys.symm
  seeds := siblings.otherSeeds
  otherSeeds := siblings.seeds

theorem trans
    (siblings : session.Siblings other)
    (others : other.Siblings third) :
    session.Siblings third where
  coherent := siblings.coherent
  otherCoherent := others.otherCoherent
  root := others.root.trans siblings.root
  foreignKeys := others.foreignKeys.trans siblings.foreignKeys
  seeds := siblings.seeds
  otherSeeds := others.otherSeeds

/-- Operations that only resolve fields leave a sibling of the session. -/
theorem after
    {Result : Type}
    {act : Resolving Result}
    (siblings : session.Siblings other)
    (resolvesFields : ResolvesFields act) :
    session.Siblings (outcome act other).2 := by
  obtain ⟨coherent, resolves⟩ :=
    resolvesFields.keeps_coherent siblings.otherCoherent rfl
  exact siblings.resolves siblings.coherent coherent (.refl session) resolves

end Session.Siblings

namespace Query

theorem settled_start
    (table : String)
    (foreignKeys : ForeignKeys)
    (dialect : Dialect) :
    (start table foreignKeys dialect).Settled where
  coherent := Session.coherent_start table foreignKeys
  otherCoherent := Session.coherent_start table foreignKeys
  root := rfl
  foreignKeys := rfl
  seeds := rfl
  otherSeeds := rfl

/-- A new session in which fields are resolved settles a query. -/
theorem settled_of_start
    {Result : Type}
    {act : Resolving Result}
    (resolvesFields : Session.ResolvesFields act)
    (query : Query) :
    (query.withSession
      (outcome act (Session.start query.table query.foreignKeys)).2).Settled :=
  (settled_start query.table query.foreignKeys query.dialect).after resolvesFields

namespace Settled

variable {query : Query}

/-- Sessions that settle one query are siblings. -/
theorem siblings
    {session next : Session}
    (settled : (query.withSession session).Settled)
    (otherSettled : (query.withSession next).Settled) :
    session.Siblings next :=
  settled.symm.trans otherSettled

/-- Resolving fields keeps a query settled. -/
theorem withSession
    {Result : Type}
    {act : Resolving Result}
    (settled : query.Settled)
    (resolvesFields : Session.ResolvesFields act) :
    (query.withSession (outcome act query.session).2).Settled :=
  Session.Siblings.after settled resolvesFields

/-- Every call keeps a query settled, whether or not it fails. -/
theorem after
    (settled : query.Settled)
    (call : Call) :
    (call.after query).Settled := by
  obtain ⟨sameTable, sameForeignKeys, _⟩ := after_keeps query call
  rw [Settled, sameTable, sameForeignKeys]
  have start := settled_start query.table query.foreignKeys query.dialect
  exact Call.keeps_session (fun resolvesFields _ kept => kept.after resolvesFields)
    start settled call

/-- Calls keep a query settled. -/
theorem run
    (settled : query.Settled)
    (calls : List Call) :
    (query.run calls).Settled := by
  induction calls generalizing query with
  | nil => exact settled
  | cons call rest inductionHypothesis =>
      exact inductionHypothesis (settled.after call)

end Settled
end Query
end DomainSql
