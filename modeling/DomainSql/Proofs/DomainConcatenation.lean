import DomainSql.Filter.Basic
import DomainSql.Proofs.FormulaShape
import DomainSql.Proofs.PrefixNotation

/-!
# One domain behind another

A domain that has a formula leaves the operands behind it alone. So a domain in front of
another is read after it, from the state that the other has left, and the conjunction of
the whole is spliced from the two conjunctions.
-/

namespace DomainSql

namespace Formula

/-- The conjunction of two conjunctions is that of all their formulas. -/
theorem conjunction_conjunctions
    {Leaf : Type}
    (front back : List (Formula Leaf)) :
    conjunction [conjunction front, conjunction back] = conjunction (front ++ back) := by
  simp [conjunction]

end Formula

namespace Expression

variable {Leaf : Type} {Action : Type → Type} [Monad Action] [LawfulMonad Action]

/-- Expressions in front of others are bound after them. -/
theorem bindAll_append
    (act : Condition → Action Leaf)
    (front back : List (Expression Condition)) :
    bindAll act (front ++ back) = (do
      let later ← bindAll act back
      let earlier ← bindAll act front
      pure (earlier ++ later)) := by
  induction front with
  | nil => simp [bindAll]
  | cons expression rest inductionHypothesis =>
      simp [bindAll, inductionHypothesis]

/-- A written domain in front of another is read after it, whether reading succeeds or
fails. -/
theorem formulaWith_write_append
    [MonadExceptOf Error Action]
    (act : Condition → Action Leaf)
    (front back : List (Expression Condition)) :
    Domain.formulaWith act (write front ++ write back) = (do
      let later ← Domain.formulaWith act (write back)
      let earlier ← Domain.formulaWith act (write front)
      pure (.conjunction [earlier, later])) := by
  rw [← write_append]
  simp only [formulaWith_write, bindAll_append, bind_assoc, pure_bind, List.map_append,
    Formula.conjunction_conjunctions]

end Expression

namespace Domain

variable {Leaf State : Type} {act : Condition → ExceptT Error (StateM State) Leaf}

/-- If a domain is read, and the one in front of it from the state that is left, then
the two are read as one domain. -/
theorem formulaWith_append
    {front back : Domain}
    {earlier later : Formula Leaf}
    {state middle after : State}
    (backRead : outcome (back.formulaWith act) state = (.ok later, middle))
    (frontRead : outcome (front.formulaWith act) middle = (.ok earlier, after)) :
    outcome ((front ++ back).formulaWith act) state =
      (.ok (.conjunction [earlier, later]), after) := by
  obtain ⟨backExpressions, rfl⟩ := Expression.exists_write_of_formulaWith backRead
  obtain ⟨frontExpressions, rfl⟩ := Expression.exists_write_of_formulaWith frontRead
  rw [Expression.formulaWith_write_append, outcome_bind, backRead]
  simp only
  rw [outcome_bind, frontRead]
  rfl

/-- Let a domain be read from a state as a conjunction, and another domain from the state
that the first has left. The other in front of the first is read from the same state as
the conjunction of the members of both, and leaves the state that the two have left. In
particular, binding the two domains as one in a session leaves the session as binding the
one and then the other does, and gives the conjunction of their formulas. -/
theorem concatenation_conjoins (front back : Domain) :
    (∀ {Leaf State : Type}
      (act : Condition → ExceptT Error (StateM State) Leaf)
      (members others : List (Formula Leaf))
      (state middle after : State),
      outcome (back.formulaWith act) state = (.ok (.and others), middle) →
      outcome (front.formulaWith act) middle = (.ok (.and members), after) →
      outcome ((front ++ back).formulaWith act) state =
        (.ok (.and (members ++ others)), after)) ∧
    ∀ (earlier later : Formula BoundCondition) (session middle after : Session),
      outcome back.bind session = (.ok later, middle) →
      outcome front.bind middle = (.ok earlier, after) →
      ∃ whole,
        outcome (front ++ back).bind session = (.ok whole, after) ∧
        whole = .conjunction [earlier, later] ∧
        ∀ truth, whole.evalFrom truth 0 =
          (earlier.evalFrom truth 0 && later.evalFrom truth earlier.leaves.length) := by
  constructor
  · intro Leaf State act members others state middle after backRead frontRead
    have read := formulaWith_append backRead frontRead
    simpa [Formula.conjunction] using read
  · intro earlier later session middle after backBound frontBound
    refine ⟨_, formulaWith_append backBound frontBound, rfl, fun truth => ?_⟩
    rw [Formula.evalFrom_conjunction]
    simp [Formula.evalAllFrom]

/-- A negated condition in front of another condition, which has joined the table of the
field that they share. -/
theorem concatenation_conjoins_shared_fields :
    let foreignKeys : ForeignKeys := fun table field =>
      if table = "orders" ∧ field = "partner" then
        some ⟨"partners", "partner_id", "id"⟩
      else none
    let front : Domain :=
      [.marker "!", .condition ⟨"partner.state", "=", .literal .null⟩]
    let back : Domain := [.condition ⟨"partner.name", "ilike", .field "name"⟩]
    let session := Session.start "orders" foreignKeys
    ∃ earlier later middle after,
      outcome back.bind session = (.ok later, middle) ∧
      outcome front.bind middle = (.ok earlier, after) ∧
      after.joins.length = 1 ∧
      outcome (front ++ back).bind session =
        (.ok (.conjunction [earlier, later]), after) := by
  intro foreignKeys front back session
  let both : Resolving Nat := do
    let _ ← back.bind
    let _ ← front.bind
    let after ← get
    pure after.joins.length
  have computed : (outcome both session).1.toOption = some 1 := by
    decide +kernel
  obtain ⟨_, ran⟩ := exists_state_of_toOption_eq_some computed
  obtain ⟨later, middle, backBound, ran⟩ := outcome_bind_eq_ok_iff.mp ran
  obtain ⟨earlier, after, frontBound, ran⟩ := outcome_bind_eq_ok_iff.mp ran
  have joined : after.joins.length = 1 := by
    obtain ⟨_, _, got, done⟩ := outcome_bind_eq_ok_iff.mp ran
    cases got
    exact Except.ok.inj (congrArg Prod.fst done)
  obtain ⟨_, wholeBound, rfl, _⟩ :=
    (concatenation_conjoins front back).2 earlier later session middle after
      backBound frontBound
  exact ⟨earlier, later, middle, after, backBound, frontBound, joined, wholeBound⟩

end Domain
end DomainSql
