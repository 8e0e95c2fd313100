import DomainSql.Proofs.SessionTrace
import DomainSql.Query.Basic

/-!
# Operations that only resolve fields

Binding a condition, a domain, or a selection touches its session only by resolving
fields, one after the other, and uses nothing but the columns that they stand for. So
what resolving a field keeps, these operations keep too.
-/

namespace DomainSql

namespace Session

/-- The operation gives an answer, fails, or resolves a field and goes on with its
column. -/
inductive ResolvesFields {Result : Type} : Resolving Result → Prop
  | pure (result : Result) : ResolvesFields (pure result)
  | throw (error : Error) : ResolvesFields (throw error)
  | field
      (path : String)
      {next : Column → Resolving Result}
      (each : ∀ column, ResolvesFields (next column)) :
      ResolvesFields (do
        let resolved ← resolveField path
        next resolved.column)

namespace ResolvesFields

variable {Element Result Next : Type}

theorem bind
    {act : Resolving Result}
    {next : Result → Resolving Next}
    (first : ResolvesFields act)
    (each : ∀ result, ResolvesFields (next result)) :
    ResolvesFields (act >>= next) := by
  induction first with
  | pure result =>
      rw [pure_bind]
      exact each result
  | throw error => exact .throw error
  | field path _ inductionHypothesis =>
      rw [bind_assoc]
      exact .field path inductionHypothesis

theorem mapM
    {act : Element → Resolving Result}
    (each : ∀ element, ResolvesFields (act element))
    (elements : List Element) :
    ResolvesFields (elements.mapM act) := by
  induction elements with
  | nil => exact .pure []
  | cons element rest inductionHypothesis =>
      rw [List.mapM_cons]
      exact (each element).bind fun _ => inductionHypothesis.bind fun _ => .pure _

/-- What resolving a field keeps, operations that only resolve fields keep. -/
theorem keeps
    {kept : Session → Prop}
    (field : ∀ path session, kept session →
      kept (outcome (resolveField path) session).2)
    {act : Resolving Result}
    (resolvesFields : ResolvesFields act)
    {session : Session}
    (before : kept session) :
    kept (outcome act session).2 := by
  induction resolvesFields generalizing session with
  | pure result => exact before
  | throw error => exact before
  | field path _ inductionHypothesis =>
      exact outcome_bind_keeps (field path session before)
        fun result _ _ middle => inductionHypothesis result.column middle

/-- Resolving fields keeps a session coherent. -/
theorem keeps_coherent
    {act : Resolving Result}
    (resolvesFields : ResolvesFields act)
    {session after : Session}
    (coherent : session.Coherent)
    {answer : Except Error Result}
    (outcome_eq : outcome act session = (answer, after)) :
    after.Coherent ∧ session.Resolves after := by
  obtain rfl : (outcome act session).2 = after := congrArg Prod.snd outcome_eq
  refine keeps (fun path reached
    (kept : reached.Coherent ∧ session.Resolves reached) => ?_)
    resolvesFields ⟨coherent, .refl session⟩
  obtain ⟨reachedCoherent, early⟩ := kept
  obtain ⟨nextCoherent, late, _⟩ := reachedCoherent.resolveField
    (Prod.eta (outcome (resolveField path) reached)).symm
  exact ⟨nextCoherent, early.trans late⟩

end ResolvesFields
end Session

open Session

theorem Argument.resolvesFields_bind (argument : Argument) :
    ResolvesFields argument.bind := by
  cases argument with
  | field path => exact .field path fun _ => .pure _
  | literal value => exact .pure _

theorem FunctionCall.resolvesFields_bind (call : FunctionCall) :
    ResolvesFields call.bind := by
  rw [FunctionCall.bind]
  split
  · exact (ResolvesFields.mapM Argument.resolvesFields_bind _).bind fun _ =>
      .pure _
  · exact .throw _

theorem Operand.resolvesFields_bind (operand : Operand) :
    ResolvesFields operand.bind := by
  cases operand with
  | literal value => exact .pure _
  | field path => exact .field path fun _ => .pure _
  | call function => exact function.resolvesFields_bind.bind fun _ => .pure _

theorem Condition.resolvesFields_bind (condition : Condition) :
    ResolvesFields condition.bind := by
  rw [Condition.bind]
  split
  · exact .throw _
  · rename_i comparison _
    let next : Column → Resolving BoundCondition := fun column => do
      let operand ← condition.operand.bind
      pure ⟨column, comparison, operand⟩
    have each : ∀ column, ResolvesFields (next column) := fun _ =>
      condition.operand.resolvesFields_bind.bind fun _ => .pure _
    exact .field condition.field each

theorem Domain.resolvesFields_operandsWith
    (position : Nat)
    (domain : Domain) :
    ResolvesFields (domain.operandsWith Condition.bind position) := by
  induction domain generalizing position with
  | nil => exact .pure _
  | cons item rest inductionHypothesis =>
      rw [Domain.operandsWith]
      refine (inductionHypothesis (position + 1)).bind fun operands => ?_
      cases item with
      | condition condition =>
          exact condition.resolvesFields_bind.bind fun _ => .pure _
      | marker text =>
          dsimp only
          split
          · exact .throw _
          · split
            · exact .pure _
            · exact .throw _

theorem Domain.resolvesFields_bind (domain : Domain) :
    ResolvesFields domain.bind :=
  (domain.resolvesFields_operandsWith 0).bind fun _ => .pure _

theorem SelectField.resolvesFields_bind (field : SelectField) :
    ResolvesFields field.bind := by
  cases field with
  | column path => exact .field path fun _ => .pure _
  | call function => exact function.resolvesFields_bind.bind fun _ => .pure _

theorem OrderItem.resolvesFields_bind (item : String) :
    ResolvesFields (OrderItem.bind item) := by
  rw [OrderItem.bind]
  split
  · exact .throw _
  · rename_i order _
    let next : Column → Resolving Sql.Ordering := fun column =>
      pure ⟨Sql.Term.ofColumn column, order.direction, order.nulls⟩
    have each : ∀ column, ResolvesFields (next column) := fun _ => .pure _
    exact .field order.path each

theorem Query.resolvesFields_bindSelection
    (fields : List SelectField)
    (options : SelectOptions) :
    ResolvesFields (bindSelection fields options) := by
  refine .bind (.mapM (fun field => ?_) fields) fun _ => .bind
    (.mapM OrderItem.resolvesFields_bind _) fun _ => .bind
    (.mapM (fun _ => SelectField.resolvesFields_bind _) _) fun _ => .pure _
  exact field.resolvesFields_bind.bind fun _ => .pure _

/-! ## The session of a filter -/

namespace Filter

variable {table : String} {foreignKeys : ForeignKeys} {domain : Domain}

/-- A filter is what binding its domain gives in a new session. -/
theorem ofDomain_eq_of_bind
    {answer : Except Error (Formula BoundCondition)}
    {session : Session}
    (ran : outcome domain.bind (Session.start table foreignKeys) = (answer, session)) :
    ofDomain table foreignKeys domain =
      answer.map fun formula => ⟨session.root, session.joins, formula⟩ := by
  have unfolded : domain.bind.run.run (Session.start table foreignKeys) =
      (answer, session) := ran
  rw [ofDomain, unfolded]
  cases answer <;> rfl

theorem exists_bind_of_ofDomain
    {filter : Filter}
    (accepted : ofDomain table foreignKeys domain = .ok filter) :
    ∃ session,
      outcome domain.bind (Session.start table foreignKeys) =
        (.ok filter.formula, session) ∧
      filter.root = session.root ∧ filter.joins = session.joins := by
  rcases ran : outcome domain.bind (Session.start table foreignKeys) with
    ⟨error | formula, session⟩
  · cases (ofDomain_eq_of_bind ran).symm.trans accepted
  · cases (ofDomain_eq_of_bind ran).symm.trans accepted
    exact ⟨session, rfl, rfl, rfl⟩

end Filter

end DomainSql
