import DomainSql.Proofs.ObservedSessions
import DomainSql.Proofs.QueryHistory

/-!
# Queries that cannot be told apart

No call sees more of the session of a query than what fields stand for in it and which
joins it has, and statements with a single condition show that much. So queries that
differ in their sessions only answer all calls in the same way exactly when the sessions
are interchangeable, and filters alone tell other queries apart.
-/

namespace DomainSql
namespace Query

/-! ## One answer from interchangeable sessions -/

/-- Two queries that are the same up to interchangeable sessions. -/
structure Interchangeable (query other : Query) : Prop where
  others : other = query.withSession other.session
  settled : query.Settled
  otherSettled : other.Settled
  sessions : query.session.Interchangeable other.session

namespace Interchangeable

variable {query other : Query}

theorem refl (settled : query.Settled) : query.Interchangeable query :=
  ⟨rfl, settled, settled, .refl query.session⟩

/-- What a statement shows of two sessions with the same joins, up to their keys, on
the same root table. -/
theorem checkedStatement_unkeyed
    {session next : Session}
    (root : session.root = next.root)
    (joins : session.joins.map Join.unkeyed = next.joins.map Join.unkeyed)
    (dialect : Dialect)
    (formula : Formula BoundCondition) :
    ((query.withSession session).checkedStatement dialect formula).map
        Sql.Statement.unkeyed =
      ((query.withSession next).checkedStatement dialect formula).map
        Sql.Statement.unkeyed := by
  have checked : Sql.Statement.checkJoins dialect session.joins =
      Sql.Statement.checkJoins dialect next.joins := by
    rw [← Sql.Statement.checkJoins_unkeyed, joins, Sql.Statement.checkJoins_unkeyed]
  have same : ((query.withSession session).statementOf dialect formula).unkeyed =
      ((query.withSession next).statementOf dialect formula).unkeyed := by
    simp only [Sql.Statement.unkeyed, statementOf, outputColumns, withSession, root,
      joins]
    rfl
  rw [checkedStatement, checkedStatement, withSession_session, withSession_session,
    checked]
  cases Sql.Statement.checkJoins dialect next.joins with
  | error error => rfl
  | ok supported => exact congrArg Except.ok same

/-- Interchangeable queries make the same statement of a filter, up to the keys of its
joins, or fail in one way, and stay interchangeable. -/
theorem statement
    (interchangeable : query.Interchangeable other)
    {change : Sql.Statement → Answer}
    (keyless : ∀ made, change made.unkeyed = change made)
    (domain : Domain)
    (dialect : Dialect) :
    (outcome (do
        let statement ← Query.statement domain dialect
        pure (change statement)) query).1 =
      (outcome (do
        let statement ← Query.statement domain dialect
        pure (change statement)) other).1 ∧
    (outcome (do
        let statement ← Query.statement domain dialect
        pure (change statement)) query).2.Interchangeable
      (outcome (do
        let statement ← Query.statement domain dialect
        pure (change statement)) other).2 := by
  obtain ⟨others, settled, otherSettled, sessions⟩ := interchangeable
  obtain ⟨formulas, sessionsAfter⟩ :=
    domain.resolvesFields_bind.interchangeable sessions
  have settledAfter := settled.withSession domain.resolvesFields_bind
  have otherSettledAfter := otherSettled.withSession domain.resolvesFields_bind
  have root : (outcome domain.bind query.session).2.root =
      (outcome domain.bind other.session).2.root := by
    rw [others] at otherSettledAfter
    rw [others]
    exact (settledAfter.siblings otherSettledAfter).root.symm
  have shows : ∀ made : Except Error Sql.Statement,
      made.map change = (made.map Sql.Statement.unkeyed).map change := by
    rintro (error | made)
    · rfl
    · exact congrArg Except.ok (keyless made).symm
  rw [outcome_answer_of_statement, outcome_answer_of_statement]
  rcases ran : outcome domain.bind query.session with ⟨answer, session⟩
  rcases otherRan : outcome domain.bind other.session with ⟨otherAnswer, next⟩
  rw [ran, otherRan] at formulas sessionsAfter root
  rw [ran] at settledAfter
  rw [otherRan] at otherSettledAfter
  simp only at formulas sessionsAfter root settledAfter otherSettledAfter
  have after : (query.withSession session).Interchangeable
      (other.withSession next) :=
    ⟨by rw [others]; rfl, settledAfter, otherSettledAfter, sessionsAfter⟩
  subst formulas
  cases answer with
  | error error => exact ⟨rfl, after⟩
  | ok formula =>
      refine ⟨?_, after⟩
      simp only
      rw [shows, others, withSession_withSession,
        checkedStatement_unkeyed root sessionsAfter.joins, ← shows]

/-- A call of interchangeable queries has one answer, and they stay
interchangeable. -/
theorem answer
    (interchangeable : query.Interchangeable other)
    (call : Call) :
    (outcome call.answer query).1 = (outcome call.answer other).1 ∧
      (call.after query).Interchangeable (call.after other) := by
  rw [Call.after, Call.after]
  cases call with
  | select fields options =>
      -- A selection starts both sessions anew, so what it leaves is the same.
      have settledAfter := interchangeable.settled.after (.select fields options)
      have same : outcome (Call.select fields options).answer query =
          outcome (Call.select fields options).answer other := by
        rw [interchangeable.others, outcome_selectAnswer, outcome_selectAnswer]
        rfl
      rw [← same]
      exact ⟨rfl, refl settledAfter⟩
  | filter domain =>
      have dialect : other.dialect = query.dialect := by
        rw [interchangeable.others]
        rfl
      rw [outcome_filter, outcome_filter, dialect]
      refine interchangeable.statement (fun made => ?_) domain query.dialect
      simp [Sql.Statement.unkeyed, Join.unkeyed]
  | toSql domain dialect =>
      rw [outcome_toSql, outcome_toSql]
      exact interchangeable.statement
        (fun made => congrArg Answer.text (made.text_unkeyed dialect)) domain dialect

/-- Interchangeable queries answer all calls in the same way. -/
theorem answers
    (interchangeable : query.Interchangeable other)
    (calls : List Call) :
    query.answers calls = other.answers calls := by
  induction calls generalizing query other with
  | nil => rfl
  | cons call rest inductionHypothesis =>
      obtain ⟨same, after⟩ := interchangeable.answer call
      rw [Query.answers, Query.answers, same, inductionHypothesis after]

end Interchangeable

/-! ## Telling queries apart -/

section Probing

variable {query : Query}

/-- The text of a query that tests one field for null, if any, without a limit on the
kinds of joins. -/
def probe (field? : Option String) : Call :=
  .toSql (field?.toList.map fun field => .condition ⟨field, "=", .literal .null⟩)
    .postgres

theorem filters_probes
    (fields : List String)
    (field? : Option String) :
    ∀ call ∈ (fields.map fun field => probe (some field)) ++ [probe field?],
      call.filter?.isSome := by
  intro call inCalls
  simp only [List.mem_append, List.mem_map, List.mem_singleton] at inCalls
  rcases inCalls with ⟨field, _, rfl⟩ | rfl <;> rfl

/-- Testing no field shows the joins of the session and changes nothing. -/
theorem outcome_probe_none (query : Query) :
    outcome (probe none).answer query =
      (.ok (.text ((query.statementOf .postgres (.conjunction [])).text .postgres)),
        query) := by
  rw [probe, outcome_toSql, outcome_answer_of_statement]
  have unresolved : outcome (Domain.bind []) query.session =
      (.ok (.conjunction []), query.session) := rfl
  simp only [Option.toList, List.map_nil, unresolved, withSession_self,
    checkedStatement, Sql.Statement.checkJoins_postgres]
  rfl

/-- The formula that tests a column for null. -/
def isNull (column : Column) : Formula BoundCondition :=
  .conjunction [.leaf ⟨column, .equal, .literal .null⟩]

/-- Testing a field resolves it, and shows the joins of the session and the column that
the field stands for. -/
theorem outcome_probe_some
    (query : Query)
    (field : String) :
    outcome (probe (some field)).answer query =
      match outcome (Session.resolveField field) query.session with
      | (.error error, session) => (.error error, query.withSession session)
      | (.ok resolved, session) =>
          (.ok (.text (((query.withSession session).statementOf .postgres
            (isNull resolved.column)).text .postgres)), query.withSession session) := by
  rw [probe, outcome_toSql, outcome_answer_of_statement]
  have bound : outcome (Domain.bind [.condition ⟨field, "=", .literal .null⟩])
      query.session =
      match outcome (Session.resolveField field) query.session with
      | (.error error, session) => (.error error, session)
      | (.ok resolved, session) => (.ok (isNull resolved.column), session) := by
    have one : Domain.bind [.condition ⟨field, "=", .literal .null⟩] = (do
        let resolved ← Session.resolveField field
        pure (isNull resolved.column)) := by
      have known : Comparison.ofToken? "=" = some .equal := rfl
      simp only [Domain.bind, Domain.formulaWith, Domain.operandsWith, pure_bind,
        Condition.bind, known, Operand.bind, bind_assoc, isNull]
    rw [one, outcome_bind]
    rcases outcome (Session.resolveField field) query.session with
      ⟨error | resolved, session⟩ <;> rfl
  simp only [Option.toList, List.map_cons, List.map_nil, bound]
  rcases outcome (Session.resolveField field) query.session with
    ⟨error | resolved, session⟩
  · rfl
  · simp only [checkedStatement, Sql.Statement.checkJoins_postgres]
    rfl

/-- Testing fields leaves the session in which they have been resolved. -/
theorem run_probes
    (query : Query)
    (fields : List String) :
    query.run (fields.map fun field => probe (some field)) =
      query.withSession (query.session.run (fields.map .field)) := by
  induction fields generalizing query with
  | nil => rfl
  | cons field rest inductionHypothesis =>
      have after : (probe (some field)).after query =
          query.withSession
            (outcome (Session.resolveField field) query.session).2 := by
        rw [Call.after, outcome_probe_some]
        rcases outcome (Session.resolveField field) query.session with
          ⟨error | resolved, session⟩ <;> rfl
      rw [List.map_cons, run_cons, after, inductionHypothesis]
      rfl

/-- Queries that answer calls in the same way answer the last of them in the same
way. -/
theorem answer_eq_of_answers_eq
    {other : Query}
    {front : List Call}
    {call : Call}
    (same : query.answers (front ++ [call]) = other.answers (front ++ [call])) :
    (outcome call.answer (query.run front)).1 =
      (outcome call.answer (other.run front)).1 := by
  rw [answers_concat, answers_concat] at same
  exact List.singleton_inj.mp (List.append_inj' same rfl).2

/-- The characters of a test for null. -/
theorem charsOf_isNull (column : Column) :
    Sql.Token.charsOf .postgres
        ((Sql.Test.ofFormula .postgres (isNull column)).tokens .postgres) =
      Sql.quotedName .postgres column.table.aliasName
        ++ '.' :: (Sql.quotedName .postgres column.name ++ " IS NULL".toList) := by
  have tokens : (Sql.Test.ofFormula .postgres (isNull column)).tokens .postgres =
      [.name column.table.aliasName, .symbol ".", .name column.name, .space,
        .word "IS", .space, .word "NULL"] := rfl
  rw [tokens]
  simp [Sql.Token.chars]

/-- A test for null shows its column. -/
theorem shown_eq_of_charsOf_isNull
    {column other : Column}
    (equal : Sql.Token.charsOf .postgres
        ((Sql.Test.ofFormula .postgres (isNull column)).tokens .postgres) =
      Sql.Token.charsOf .postgres
        ((Sql.Test.ofFormula .postgres (isNull other)).tokens .postgres)) :
    column.shown = other.shown := by
  rw [charsOf_isNull, charsOf_isNull] at equal
  obtain ⟨aliasName, equal⟩ :=
    Sql.quotedName_append_inj (by simp [Sql.nameQuote]) (by simp [Sql.nameQuote]) equal
  obtain ⟨name, _⟩ := Sql.quotedName_append_inj
    (by simp [Sql.nameQuote]) (by simp [Sql.nameQuote]) (List.cons.inj equal).2
  exact Prod.ext aliasName name

/-- The statements of two sessions on one root table have different texts if they show
different joins or different tests. -/
theorem statementOf_text_inj
    {session next : Session}
    (root : session.root = next.root)
    {dialect : Dialect}
    {formula other : Formula BoundCondition}
    (equal : ((query.withSession session).statementOf dialect formula).text dialect =
      ((query.withSession next).statementOf dialect other).text dialect) :
    session.joins.map Join.shown = next.joins.map Join.shown ∧
      Sql.Token.charsOf dialect
          ((Sql.Test.ofFormula dialect formula).tokens dialect) =
        Sql.Token.charsOf dialect
          ((Sql.Test.ofFormula dialect other).tokens dialect) := by
  have columns : (query.withSession session).outputColumns =
      (query.withSession next).outputColumns := by
    simp only [outputColumns, withSession_session, root]
    rfl
  refine Sql.Statement.text_inj ?_ ?_ ?_ ?_ ?_ ?_ equal
  · exact columns
  · exact root
  all_goals rfl

/-- A session that answers all filters in the same way as the session of the query is
not told apart from it by statements. -/
theorem alike_of_answers_eq
    {next : Session}
    (settled : query.Settled)
    (nextSettled : (query.withSession next).Settled)
    (same : ∀ calls, (∀ call ∈ calls, call.filter?.isSome) →
      query.answers calls = (query.withSession next).answers calls) :
    query.session.Alike next := by
  intro fields
  have settledAfter :=
    settled.run (fields.map fun field => probe (some field))
  have nextSettledAfter :=
    nextSettled.run (fields.map fun field => probe (some field))
  have answers := fun field? =>
    answer_eq_of_answers_eq (same _ (filters_probes fields field?))
  simp only [run_probes, withSession_session, withSession_withSession]
    at settledAfter nextSettledAfter answers
  generalize query.session.run (fields.map .field) = session at *
  generalize next.run (fields.map .field) = other at *
  have siblings := settledAfter.siblings nextSettledAfter
  refine ⟨?_, fun field => ?_⟩
  · have texts := answers none
    rw [outcome_probe_none, outcome_probe_none] at texts
    have equal := Answer.text.inj (Except.ok.inj texts)
    exact (statementOf_text_inj siblings.root.symm equal).1
  · have texts := answers (some field)
    have root := (siblings.field field).root
    rw [outcome_probe_some, outcome_probe_some] at texts
    simp only [withSession_session, withSession_withSession] at texts
    rcases ran : outcome (Session.resolveField field) session with
      ⟨error | resolved, after⟩ <;>
    rcases otherRan : outcome (Session.resolveField field) other with
      ⟨otherError | otherResolved, otherAfter⟩ <;>
    rw [ran, otherRan] at texts root
    · exact congrArg Except.error (Except.error.inj texts)
    · cases texts
    · cases texts
    · have equal := Answer.text.inj (Except.ok.inj texts)
      exact congrArg Except.ok
        (shown_eq_of_charsOf_isNull (statementOf_text_inj root.symm equal).2)

end Probing

/-! ## The exact condition -/

/-- Calls answer as they would without a session in place of another one exactly when
the sessions are interchangeable. -/
theorem answers_eq_iff_interchangeable
    {query : Query}
    {next : Session}
    (settled : query.Settled)
    (nextSettled : (query.withSession next).Settled) :
    (∀ calls, query.answers calls = (query.withSession next).answers calls) ↔
      query.session.Interchangeable next := by
  constructor
  · intro same
    exact (settled.siblings nextSettled).interchangeable
      (alike_of_answers_eq settled nextSettled fun calls _ => same calls)
  · intro sessions
    have interchangeable : query.Interchangeable (query.withSession next) :=
      ⟨rfl, settled, nextSettled, sessions⟩
    exact interchangeable.answers

/-- Filters alone tell two sessions apart if any calls do. -/
theorem answers_filters_eq_iff_interchangeable
    {query : Query}
    {next : Session}
    (settled : query.Settled)
    (nextSettled : (query.withSession next).Settled) :
    (∀ calls, (∀ call ∈ calls, call.filter?.isSome) →
      query.answers calls = (query.withSession next).answers calls) ↔
      query.session.Interchangeable next := by
  constructor
  · intro same
    exact (settled.siblings nextSettled).interchangeable
      (alike_of_answers_eq settled nextSettled same)
  · intro sessions calls _
    exact (answers_eq_iff_interchangeable settled nextSettled).mpr sessions calls

/-- Sessions that settle one query are interchangeable exactly when they have the same
joins, if no foreign key is known for the empty name. -/
theorem interchangeable_iff_joins_eq
    {query : Query}
    {next : Session}
    (settled : query.Settled)
    (nextSettled : (query.withSession next).Settled)
    (noRelation : ∀ name, query.foreignKeys name "" = none) :
    query.session.Interchangeable next ↔
      query.session.joins.map Join.unkeyed = next.joins.map Join.unkeyed := by
  constructor
  · exact Session.Interchangeable.joins
  · intro joins
    have foreignKeys : query.session.foreignKeys = query.foreignKeys :=
      settled.foreignKeys
    have isMatching : query.session.Matching next :=
      { settled.siblings nextSettled with
        joins := joins
        noRelation := by
          rw [foreignKeys]
          exact noRelation }
    exact isMatching.interchangeable

end Query
end DomainSql
