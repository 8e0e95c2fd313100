import DomainSql.Proofs.InterchangeableQueries

/-!
# Selections that fail

A selection that fails leaves the columns, orders, groups and limits of the selection
before it, but in a session that has been started anew and holds what was resolved up
to the failure. Later calls take no notice of this exactly when the two sessions are
interchangeable.
-/

namespace DomainSql
namespace Query

/-- A selection that fails replaces the session of the query by a new one, in which the
fields up to the failure have been resolved, and changes nothing else. -/
theorem eq_withSession_of_failed
    {query after : Query}
    {fields : List SelectField}
    {options : SelectOptions}
    {error : Error}
    (failed : outcome (select fields options) query = (.error error, after)) :
    after = query.withSession
      (outcome (bindSelection fields options)
        (Session.start query.table query.foreignKeys)).2 := by
  rw [outcome_select] at failed
  rcases ran : outcome (bindSelection fields options)
    (Session.start query.table query.foreignKeys) with ⟨error | selection, session⟩
  · rw [ran] at failed
    exact (congrArg Prod.snd failed).symm
  · rw [ran] at failed
    cases congrArg Prod.fst failed

/-- A selection that fails leaves the query with a new session, in which the fields up
to the failure have been resolved. All later calls answer as they would without the
selection exactly when this session and the old one are interchangeable, and where no
foreign key is known for the empty name, this is when both have the same joins, up to
their keys. -/
theorem failed_select_unnoticed_iff
    {table : String}
    {foreignKeys : ForeignKeys}
    {dialect : Dialect}
    {calls : List Call}
    {query after : Query}
    (reached : (start table foreignKeys dialect).run calls = query)
    {fields : List SelectField}
    {options : SelectOptions}
    {error : Error}
    (failed : outcome (select fields options) query = (.error error, after)) :
    after = query.withSession
        (outcome (bindSelection fields options) (Session.start table foreignKeys)).2 ∧
      ((∀ later, query.answers later = after.answers later) ↔
        query.session.Interchangeable after.session) ∧
      ((∀ name, foreignKeys name "" = none) →
        (query.session.Interchangeable after.session ↔
          query.session.joins.map Join.unkeyed =
            after.session.joins.map Join.unkeyed)) := by
  have settled : query.Settled := by
    rw [← reached]
    exact (settled_start table foreignKeys dialect).run calls
  obtain ⟨sameTable, sameForeignKeys, _⟩ : query.table = table ∧
      query.foreignKeys = foreignKeys ∧ query.dialect = dialect := by
    rw [← reached]
    exact run_keeps _ calls
  have after_eq := eq_withSession_of_failed failed
  have nextSettled :=
    settled_of_start (resolvesFields_bindSelection fields options) query
  rw [← sameTable, ← sameForeignKeys]
  subst after_eq
  exact ⟨rfl, answers_eq_iff_interchangeable settled nextSettled,
    interchangeable_iff_joins_eq settled nextSettled⟩

/-- A failed selection is noticed by calls behind it: its session has lost the join of
the selection before it. -/
theorem failed_select_noticed :
    let foreignKeys : ForeignKeys := fun table field =>
      if table = "table" ∧ field = "table_2_id" then
        some ⟨"table2", "table_2_id", "id"⟩
      else none
    let options : SelectOptions := ⟨[], [], none, none, []⟩
    ∃ query error after,
      (start "table" foreignKeys .postgres).run
        [.select [.column "table_2_id.name"] options] = query ∧
      outcome (select [.column "missing.name"] options) query = (.error error, after) ∧
      ¬∀ later, query.answers later = after.answers later := by
  intro foreignKeys options
  have fails : (outcome (select [.column "missing.name"] options)
      ((start "table" foreignKeys .postgres).run
        [.select [.column "table_2_id.name"] options])).1.toOption = none := by
    decide +kernel
  have joined : ((start "table" foreignKeys .postgres).run
      [.select [.column "table_2_id.name"] options]).session.joins.length = 1 := by
    decide +kernel
  have unjoined : (outcome (bindSelection [.column "missing.name"] options)
      (Session.start "table" foreignKeys)).2.joins.length = 0 := by
    decide +kernel
  rcases failed : outcome (select [.column "missing.name"] options)
      ((start "table" foreignKeys .postgres).run
        [.select [.column "table_2_id.name"] options]) with ⟨error | selected, after⟩
  · refine ⟨_, error, after, rfl, failed, fun same => ?_⟩
    obtain ⟨after_eq, iff, _⟩ := failed_select_unnoticed_iff rfl failed
    have lengths := congrArg List.length (iff.mp same).joins
    simp only [List.length_map] at lengths
    rw [joined, after_eq, withSession_session, unjoined] at lengths
    cases lengths
  · rw [failed] at fails
    cases fails

end Query
end DomainSql
