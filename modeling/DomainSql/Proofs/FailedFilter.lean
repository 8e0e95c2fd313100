import DomainSql.Proofs.InterchangeableQueries

/-!
# Filters that fail

A filter is bound in the session of its query, condition by condition, and the dialect
is asked for the joins when all of them are there. A filter that fails, at whichever
point, leaves in the session what has been resolved up to then, and nothing takes that
back before the next selection. Later filters take no notice exactly when the session
is interchangeable with the one before, that is, when no join has come to it.
-/

namespace DomainSql
namespace Query

variable {query after : Query}

/-- A call that filters keeps the joins of the session and may put others behind
them. -/
theorem joins_isPrefix_after
    (settled : query.Settled)
    {call : Call}
    (filters : call.filter?.isSome) :
    query.session.joins <+: (call.after query).session.joins := by
  obtain ⟨domain, found⟩ := Option.isSome_iff_exists.mp filters
  rw [after_of_filter found]
  obtain ⟨_, resolves⟩ :=
    domain.resolvesFields_bind.keeps_coherent settled.otherCoherent rfl
  exact resolves.joins

/-- The joins of a session stay through all filters up to the next selection. -/
theorem joins_isPrefix_run
    (settled : query.Settled)
    {calls : List Call}
    (filters : ∀ call ∈ calls, call.filter?.isSome) :
    query.session.joins <+: (query.run calls).session.joins := by
  induction calls generalizing query with
  | nil => exact List.prefix_rfl
  | cons call rest inductionHypothesis =>
      simp only [List.mem_cons, forall_eq_or_imp] at filters
      have first := joins_isPrefix_after settled filters.1
      have others := inductionHypothesis (settled.after call) filters.2
      exact first.trans others

/-- A query that fails to answer a call that filters has the session in which the
domain of the call has been bound, as far as it could be, and is otherwise the same.
The joins of this session begin with those from before, and they are in all statements
up to the next selection. Filters up to there answer as they would without the call
exactly when this session and the old one are interchangeable, and where no foreign key
is known for the empty name, this is when no join has been made. -/
theorem failed_filter_unnoticed_iff
    {table : String}
    {foreignKeys : ForeignKeys}
    {dialect : Dialect}
    {calls : List Call}
    (reached : (start table foreignKeys dialect).run calls = query)
    {call : Call}
    {domain : Domain}
    (filters : call.filter? = some domain)
    {error : Error}
    (failed : outcome call.answer query = (.error error, after)) :
    after = query.withSession (outcome domain.bind query.session).2 ∧
      query.session.joins <+: after.session.joins ∧
      (∀ later, (∀ next ∈ later, next.filter?.isSome) →
        after.session.joins <+: (after.run later).session.joins) ∧
      ((∀ later, (∀ next ∈ later, next.filter?.isSome) →
          query.answers later = after.answers later) ↔
        query.session.Interchangeable after.session) ∧
      ((∀ name, foreignKeys name "" = none) →
        (query.session.Interchangeable after.session ↔
          after.session.joins = query.session.joins)) := by
  have settled : query.Settled := by
    rw [← reached]
    exact (settled_start table foreignKeys dialect).run calls
  have sameForeignKeys : query.foreignKeys = foreignKeys := by
    rw [← reached]
    exact (run_keeps _ calls).2.1
  have left : call.after query = after := congrArg Prod.snd failed
  have isPrefix : query.session.joins <+: after.session.joins := by
    rw [← left]
    exact joins_isPrefix_after settled (by rw [filters]; rfl)
  have afterSettled : after.Settled := by
    rw [← left]
    exact settled.after call
  have after_eq := after_of_filter filters query
  rw [left] at after_eq
  have nextSettled := settled.withSession domain.resolvesFields_bind
  refine ⟨after_eq, isPrefix, fun later onlyFilters =>
    joins_isPrefix_run afterSettled onlyFilters, ?_, fun noRelation => ?_⟩
  · rw [after_eq]
    exact answers_filters_eq_iff_interchangeable settled nextSettled
  · rw [← sameForeignKeys] at noRelation
    have joins_iff : query.session.Interchangeable after.session ↔
        query.session.joins.map Join.unkeyed =
          after.session.joins.map Join.unkeyed := by
      rw [after_eq]
      exact interchangeable_iff_joins_eq settled nextSettled noRelation
    rw [joins_iff]
    constructor
    · intro unkeyed
      have length_eq := congrArg List.length unkeyed
      simp only [List.length_map] at length_eq
      exact (isPrefix.eq_of_length length_eq).symm
    · intro same
      rw [same]

/-- A failed filter is noticed by filters behind it: the relation of its last condition
has been joined when its first condition fails. -/
theorem failed_filter_noticed :
    let foreignKeys : ForeignKeys := fun table field =>
      if table = "table" ∧ field = "table_2_id" then
        some ⟨"table2", "table_2_id", "id"⟩
      else none
    let test : String → Item := fun field =>
      .condition ⟨field, "=", .literal .null⟩
    let call : Call :=
      .toSql [test "missing.name", test "table_2_id.name"] .postgres
    let query := start "table" foreignKeys .postgres
    ∃ error after,
      outcome call.answer query = (.error error, after) ∧
      ¬∀ later, (∀ next ∈ later, next.filter?.isSome) →
        query.answers later = after.answers later := by
  intro foreignKeys test call query
  have fails : (outcome call.answer query).1.toOption.isNone := by
    decide +kernel
  have joined : (outcome
      (Domain.bind [test "missing.name", test "table_2_id.name"])
      query.session).2.joins.length = 1 := by
    decide +kernel
  rcases failed : outcome call.answer query with ⟨error | answer, after⟩
  · refine ⟨error, after, rfl, fun same => ?_⟩
    obtain ⟨after_eq, _, _, iff, _⟩ :=
      failed_filter_unnoticed_iff
        (show (start "table" foreignKeys .postgres).run [] = query from rfl)
        rfl failed
    have lengths := congrArg List.length (iff.mp same).joins
    simp only [List.length_map] at lengths
    rw [after_eq, withSession_session, joined] at lengths
    cases lengths
  · rw [failed] at fails
    cases fails

end Query
end DomainSql
