import DomainSql.Formula.Reading
import DomainSql.Proofs.Outcome

/-!
# Prefix notation

A domain that has a formula is a sequence of prefix expressions: a condition is
one, a binary marker in front of two of them is one, and a negation in front of
one is one. The sequence is determined by the domain, since no expression starts
another. Reading a domain from its end to its start binds the conditions of these
expressions in that order and gives the conjunction of their formulas.
-/

namespace DomainSql

namespace Domain

@[simp] theorem conditions_nil : conditions [] = [] := rfl

@[simp] theorem conditions_cons_condition
    (condition : Condition)
    (rest : Domain) :
    conditions (.condition condition :: rest) =
      condition :: conditions rest := rfl

@[simp] theorem conditions_cons_marker
    (text : String)
    (rest : Domain) :
    conditions (.marker text :: rest) = conditions rest := rfl

@[simp] theorem conditions_append (front back : Domain) :
    conditions (front ++ back) = conditions front ++ conditions back := by
  simp [conditions]

section Operands

/-- What the item at a position does to the operands behind it. -/
def stepWith
    {Leaf : Type}
    {Action : Type → Type}
    [Monad Action]
    [MonadExceptOf Error Action]
    (bind : Condition → Action Leaf)
    (position : Nat)
    (item : Item)
    (operands : List (Formula Leaf)) : Action (List (Formula Leaf)) :=
  match item with
  | .condition condition => do
      let leaf ← bind condition
      pure (.leaf leaf :: operands)
  | .marker text =>
      match Marker.ofText? text with
      | none => throw (.expression (.unknownMarker text position))
      | some marker =>
          match marker.apply position operands with
          | .ok operands => pure operands
          | .error error => throw (.expression error)

/-- Reading goes from the last item to the first. -/
theorem operandsWith_cons
    {Leaf : Type}
    {Action : Type → Type}
    [Monad Action]
    [MonadExceptOf Error Action]
    (bind : Condition → Action Leaf)
    (position : Nat)
    (item : Item)
    (rest : Domain) :
    operandsWith bind position (item :: rest) = (do
      let operands ← operandsWith bind (position + 1) rest
      stepWith bind position item operands) := by
  cases item <;> rfl

variable {Leaf State : Type}
  {act : Condition → ExceptT Error (StateM State) Leaf}
  {position : Nat}
  {rest : Domain}
  {operands : List (Formula Leaf)}
  {state after : State}

/-- A condition puts what it is bound to in front of the operands behind it. -/
theorem operandsWith_condition_eq_ok_iff {condition : Condition} :
    outcome (operandsWith act position (.condition condition :: rest)) state =
        (.ok operands, after) ↔
      ∃ restOperands middle value,
        outcome (operandsWith act (position + 1) rest) state =
          (.ok restOperands, middle) ∧
        outcome (act condition) middle = (.ok value, after) ∧
        operands = .leaf value :: restOperands := by
  simp only [operandsWith_cons, stepWith, outcome_bind_eq_ok_iff, outcome_pure,
    Prod.mk.injEq, Except.ok.injEq]
  constructor
  · rintro ⟨restOperands, middle, restRead, value, _, bound, rfl, rfl⟩
    exact ⟨restOperands, middle, value, restRead, bound, rfl⟩
  · rintro ⟨restOperands, middle, value, restRead, bound, rfl⟩
    exact ⟨restOperands, middle, restRead, value, after, bound, rfl, rfl⟩

/-- A known marker is applied to the operands behind it. -/
theorem operandsWith_marker_eq_ok_iff {text : String} :
    outcome (operandsWith act position (.marker text :: rest)) state =
        (.ok operands, after) ↔
      ∃ (marker : Marker) (restOperands : List (Formula Leaf)),
        text = marker.text ∧
        outcome (operandsWith act (position + 1) rest) state =
          (.ok restOperands, after) ∧
        marker.apply position restOperands = .ok operands := by
  rw [operandsWith_cons, outcome_bind_eq_ok_iff]
  constructor
  · rintro ⟨restOperands, middle, restRead, applied⟩
    cases known : Marker.ofText? text with
    | none => simp [stepWith, known] at applied
    | some marker =>
        refine ⟨marker, restOperands, (Marker.text_of_ofText? known).symm, ?_⟩
        simp only [stepWith, known] at applied
        cases result : marker.apply position restOperands with
        | error error => simp [result] at applied
        | ok combined =>
            simp only [result, outcome_pure, Prod.mk.injEq, Except.ok.injEq]
              at applied
            obtain ⟨rfl, rfl⟩ := applied
            exact ⟨restRead, rfl⟩
  · rintro ⟨marker, restOperands, rfl, restRead, applied⟩
    exact ⟨restOperands, after, restRead, by simp [stepWith, applied]⟩

/-- The formula of a domain is the conjunction of the operands that all its items
leave. -/
theorem formulaWith_eq_ok_iff
    {domain : Domain}
    {formula : Formula Leaf} :
    outcome (domain.formulaWith act) state = (.ok formula, after) ↔
      ∃ operands, formula = .conjunction operands ∧
        outcome (operandsWith act 0 domain) state = (.ok operands, after) := by
  simp only [formulaWith, outcome_bind_eq_ok_iff, outcome_pure, Prod.mk.injEq,
    Except.ok.injEq]
  constructor
  · rintro ⟨operands, _, read, rfl, rfl⟩
    exact ⟨operands, rfl, read⟩
  · rintro ⟨operands, rfl, read⟩
    exact ⟨operands, after, read, rfl, rfl⟩

/-- Reading a domain fails when reading its operands does. -/
theorem formulaWith_eq_error_iff
    {domain : Domain}
    {error : Error} :
    outcome (domain.formulaWith act) state = (.error error, after) ↔
      outcome (operandsWith act 0 domain) state = (.error error, after) := by
  rw [formulaWith, outcome_bind_eq_error_iff]
  simp

end Operands

end Domain

/-- An expression in prefix notation over leaves. -/
inductive Expression (Leaf : Type)
  | leaf (value : Leaf)
  | and (left right : Expression Leaf)
  | or (left right : Expression Leaf)
  | not (inner : Expression Leaf)

namespace Expression

variable {Leaf State : Type}

/-- The items of an expression: a marker stands in front of its operands. -/
def items : Expression Condition → Domain
  | .leaf condition => [.condition condition]
  | .and left right => .marker Marker.and.text :: (left.items ++ right.items)
  | .or left right => .marker Marker.or.text :: (left.items ++ right.items)
  | .not inner => .marker Marker.not.text :: inner.items

/-- The domain of a sequence of expressions. -/
def write (expressions : List (Expression Condition)) : Domain :=
  expressions.flatMap items

/-- The formula of an expression, built from its leaves through the smart
constructors, the left operand first. -/
def formula : Expression Leaf → Formula Leaf
  | .leaf value => .leaf value
  | .and left right => .conjunction [left.formula, right.formula]
  | .or left right => .disjunction [left.formula, right.formula]
  | .not inner => .not inner.formula

/-- Replace every condition of an expression by the result of an action on it,
from right to left. -/
def bind
    {Action : Type → Type}
    [Monad Action]
    (act : Condition → Action Leaf) :
    Expression Condition → Action (Expression Leaf)
  | .leaf condition => do
      let value ← act condition
      pure (.leaf value)
  | .and left right => do
      let right ← right.bind act
      let left ← left.bind act
      pure (.and left right)
  | .or left right => do
      let right ← right.bind act
      let left ← left.bind act
      pure (.or left right)
  | .not inner => do
      let inner ← inner.bind act
      pure (.not inner)

/-- Replace every condition of each of the expressions, from right to left. -/
def bindAll
    {Action : Type → Type}
    [Monad Action]
    (act : Condition → Action Leaf) :
    List (Expression Condition) → Action (List (Expression Leaf))
  | [] => pure []
  | expression :: rest => do
      let rest ← bindAll act rest
      let expression ← expression.bind act
      pure (expression :: rest)

@[simp] theorem write_nil : write [] = [] := rfl

@[simp] theorem write_cons
    (expression : Expression Condition)
    (rest : List (Expression Condition)) :
    write (expression :: rest) = expression.items ++ write rest := by
  simp [write]

@[simp] theorem write_append
    (front back : List (Expression Condition)) :
    write (front ++ back) = write front ++ write back := by
  simp [write]

theorem items_ne_nil (expression : Expression Condition) :
    expression.items ≠ [] := by
  cases expression <;> simp [items]

/-! ## Unique readability -/

/-- No expression is a proper beginning of another, so that the first expression
of a text and what follows it are determined. -/
theorem items_append_inj
    {left right : Expression Condition}
    {leftRest rightRest : Domain}
    (equal : left.items ++ leftRest = right.items ++ rightRest) :
    left = right ∧ leftRest = rightRest := by
  induction left generalizing right leftRest rightRest with
  | leaf condition =>
      cases right with
      | leaf other => simpa [items] using equal
      | and first second => simp [items] at equal
      | or first second => simp [items] at equal
      | not inner => simp [items] at equal
  | and first second firstHypothesis secondHypothesis =>
      cases right with
      | leaf other => simp [items] at equal
      | and otherFirst otherSecond =>
          simp only [items, List.cons_append, List.append_assoc,
            List.cons.injEq, true_and] at equal
          obtain ⟨firstEqual, equal⟩ := firstHypothesis equal
          obtain ⟨secondEqual, equal⟩ := secondHypothesis equal
          exact ⟨by rw [firstEqual, secondEqual], equal⟩
      | or otherFirst otherSecond => simp [items, Marker.text] at equal
      | not inner => simp [items, Marker.text] at equal
  | or first second firstHypothesis secondHypothesis =>
      cases right with
      | leaf other => simp [items] at equal
      | and otherFirst otherSecond => simp [items, Marker.text] at equal
      | or otherFirst otherSecond =>
          simp only [items, List.cons_append, List.append_assoc,
            List.cons.injEq, true_and] at equal
          obtain ⟨firstEqual, equal⟩ := firstHypothesis equal
          obtain ⟨secondEqual, equal⟩ := secondHypothesis equal
          exact ⟨by rw [firstEqual, secondEqual], equal⟩
      | not inner => simp [items, Marker.text] at equal
  | not inner inductionHypothesis =>
      cases right with
      | leaf other => simp [items] at equal
      | and otherFirst otherSecond => simp [items, Marker.text] at equal
      | or otherFirst otherSecond => simp [items, Marker.text] at equal
      | not other =>
          simp only [items, List.cons_append, List.cons.injEq,
            true_and] at equal
          obtain ⟨innerEqual, equal⟩ := inductionHypothesis equal
          exact ⟨by rw [innerEqual], equal⟩

/-- Different sequences of expressions are written differently. -/
theorem write_injective : Function.Injective write := by
  intro left
  induction left with
  | nil =>
      intro right equal
      cases right with
      | nil => rfl
      | cons expression rest =>
          simp [items_ne_nil] at equal
  | cons expression rest inductionHypothesis =>
      intro right equal
      cases right with
      | nil => simp [items_ne_nil] at equal
      | cons other otherRest =>
          rw [write_cons, write_cons] at equal
          obtain ⟨same, restEqual⟩ := items_append_inj equal
          rw [same, inductionHypothesis restEqual]

/-! ## Reading -/

section Reading

variable {Action : Type → Type}
  [Monad Action] [LawfulMonad Action] [MonadExceptOf Error Action]

/-- Reading an expression binds its conditions and puts its formula in front of
the operands behind it. -/
theorem operandsWith_items_append
    (act : Condition → Action Leaf)
    (expression : Expression Condition)
    (position : Nat)
    (rest : Domain) :
    Domain.operandsWith act position (expression.items ++ rest) = (do
      let operands ←
        Domain.operandsWith act (position + expression.items.length) rest
      let bound ← expression.bind act
      pure (bound.formula :: operands)) := by
  induction expression generalizing position rest with
  | leaf condition =>
      simp [items, Domain.operandsWith, bind, formula]
  | and left right leftHypothesis rightHypothesis
  | or left right leftHypothesis rightHypothesis =>
      simp only [items, List.cons_append, List.append_assoc,
        Domain.operandsWith, leftHypothesis, rightHypothesis, bind,
        bind_assoc, pure_bind, Marker.ofText?_text, Marker.apply]
      simp [formula, Nat.add_assoc, Nat.add_comm]
  | not inner inductionHypothesis =>
      simp only [items, List.cons_append, Domain.operandsWith,
        inductionHypothesis, bind, bind_assoc, pure_bind,
        Marker.ofText?_text, Marker.apply]
      simp [formula, Nat.add_assoc, Nat.add_comm]

/-- Reading expressions binds their conditions and gives their formulas. -/
theorem operandsWith_write
    (act : Condition → Action Leaf)
    (position : Nat)
    (expressions : List (Expression Condition)) :
    Domain.operandsWith act position (write expressions) = (do
      let bound ← bindAll act expressions
      pure (bound.map formula)) := by
  induction expressions generalizing position with
  | nil => simp [Domain.operandsWith, bindAll]
  | cons expression rest inductionHypothesis =>
      rw [write_cons, operandsWith_items_append, inductionHypothesis]
      simp [bindAll]

/-- The formula of a written domain is the conjunction of the formulas of its
expressions. -/
theorem formulaWith_write
    (act : Condition → Action Leaf)
    (expressions : List (Expression Condition)) :
    Domain.formulaWith act (write expressions) = (do
      let bound ← bindAll act expressions
      pure (.conjunction (bound.map formula))) := by
  simp [Domain.formulaWith, operandsWith_write]

end Reading

/-- A marker that finds its operands makes one expression of theirs. -/
theorem exists_write_of_apply
    {marker : Marker}
    {position : Nat}
    {operands result : List (Formula Leaf)}
    {expressions : List (Expression Condition)}
    (length_eq : expressions.length = operands.length)
    (applied : marker.apply position operands = .ok result) :
    ∃ read : List (Expression Condition),
      .marker marker.text :: write expressions = write read ∧
        read.length = result.length := by
  match marker, operands, expressions with
  | .and, _ :: _ :: _, left :: right :: rest =>
      simp only [Marker.apply, Except.ok.injEq] at applied
      subst applied
      exact ⟨.and left right :: rest, by simp [items],
        by simpa using length_eq⟩
  | .or, _ :: _ :: _, left :: right :: rest =>
      simp only [Marker.apply, Except.ok.injEq] at applied
      subst applied
      exact ⟨.or left right :: rest, by simp [items],
        by simpa using length_eq⟩
  | .not, _ :: _, inner :: rest =>
      simp only [Marker.apply, Except.ok.injEq] at applied
      subst applied
      exact ⟨.not inner :: rest, by simp [items],
        by simpa using length_eq⟩
  | .and, [], _ => simp [Marker.apply] at applied
  | .and, [_], _ => simp [Marker.apply] at applied
  | .or, [], _ => simp [Marker.apply] at applied
  | .or, [_], _ => simp [Marker.apply] at applied
  | .not, [], _ => simp [Marker.apply] at applied
  | _, _ :: _, [] => simp at length_eq
  | _, _ :: _ :: _, [_] => simp at length_eq

/-- A domain that can be read is written by as many expressions as it leaves
operands. -/
theorem exists_write_of_operandsWith
    {act : Condition → ExceptT Error (StateM State) Leaf}
    {position : Nat}
    {domain : Domain}
    {operands : List (Formula Leaf)}
    {state after : State}
    (read : outcome (Domain.operandsWith act position domain) state =
      (.ok operands, after)) :
    ∃ expressions : List (Expression Condition),
      domain = write expressions ∧
        expressions.length = operands.length := by
  induction domain generalizing position operands after with
  | nil =>
      simp only [Domain.operandsWith, outcome_pure, Prod.mk.injEq,
        Except.ok.injEq] at read
      exact ⟨[], rfl, by simp [← read.1]⟩
  | cons item rest inductionHypothesis =>
      cases item with
      | condition condition =>
          obtain ⟨restOperands, middle, value, restRead, _, rfl⟩ :=
            Domain.operandsWith_condition_eq_ok_iff.mp read
          obtain ⟨expressions, rfl, length_eq⟩ := inductionHypothesis restRead
          exact ⟨.leaf condition :: expressions, by simp [items],
            by simp [length_eq]⟩
      | marker text =>
          obtain ⟨marker, restOperands, rfl, restRead, applied⟩ :=
            Domain.operandsWith_marker_eq_ok_iff.mp read
          obtain ⟨expressions, rfl, length_eq⟩ := inductionHypothesis restRead
          exact exists_write_of_apply length_eq applied

/-- A domain that has a formula is written by expressions. -/
theorem exists_write_of_formulaWith
    {act : Condition → ExceptT Error (StateM State) Leaf}
    {domain : Domain}
    {formula : Formula Leaf}
    {state after : State}
    (read : outcome (domain.formulaWith act) state = (.ok formula, after)) :
    ∃ expressions : List (Expression Condition), domain = write expressions := by
  obtain ⟨_, _, operandsRead⟩ := Domain.formulaWith_eq_ok_iff.mp read
  obtain ⟨expressions, domain_eq, _⟩ := exists_write_of_operandsWith operandsRead
  exact ⟨expressions, domain_eq⟩

/-! ## Binding without failure -/

/-- Whether an action on conditions succeeds from every state. -/
def NeverFails (act : Condition → ExceptT Error (StateM State) Leaf) : Prop :=
  ∀ condition state, ∃ value after,
    outcome (act condition) state = (.ok value, after)

theorem NeverFails.bind
    {act : Condition → ExceptT Error (StateM State) Leaf}
    (neverFails : NeverFails act)
    (expression : Expression Condition)
    (state : State) :
    ∃ bound after, outcome (expression.bind act) state = (.ok bound, after) := by
  induction expression generalizing state with
  | leaf condition =>
      obtain ⟨value, after, bound⟩ := neverFails condition state
      exact ⟨.leaf value, after, by simp [Expression.bind, outcome_map, bound]⟩
  | and left right leftHypothesis rightHypothesis =>
      obtain ⟨boundRight, middle, rightBound⟩ := rightHypothesis state
      obtain ⟨boundLeft, after, leftBound⟩ := leftHypothesis middle
      exact ⟨.and boundLeft boundRight, after, by
        simp [Expression.bind, outcome_bind, outcome_map, leftBound, rightBound]⟩
  | or left right leftHypothesis rightHypothesis =>
      obtain ⟨boundRight, middle, rightBound⟩ := rightHypothesis state
      obtain ⟨boundLeft, after, leftBound⟩ := leftHypothesis middle
      exact ⟨.or boundLeft boundRight, after, by
        simp [Expression.bind, outcome_bind, outcome_map, leftBound, rightBound]⟩
  | not inner inductionHypothesis =>
      obtain ⟨bound, after, innerBound⟩ := inductionHypothesis state
      exact ⟨.not bound, after, by
        simp [Expression.bind, outcome_map, innerBound]⟩

theorem NeverFails.bindAll
    {act : Condition → ExceptT Error (StateM State) Leaf}
    (neverFails : NeverFails act)
    (expressions : List (Expression Condition))
    (state : State) :
    ∃ bound after,
      outcome (Expression.bindAll act expressions) state =
        (.ok bound, after) := by
  induction expressions with
  | nil => exact ⟨[], state, rfl⟩
  | cons expression rest inductionHypothesis =>
      obtain ⟨boundRest, middle, restBound⟩ := inductionHypothesis
      obtain ⟨bound, after, expressionBound⟩ :=
        neverFails.bind expression middle
      exact ⟨bound :: boundRest, after, by
        simp [Expression.bindAll, outcome_bind, outcome_map, restBound,
          expressionBound]⟩

/-- Reading succeeds exactly on the written sequences of prefix expressions. The
sequence is the only one that is written so, and the formula is the conjunction of
the formulas of its expressions, in order, with what the action makes of their
conditions for their leaves. -/
theorem formulaWith_reads_exactly_expressions
    {act : Condition → ExceptT Error (StateM State) Leaf}
    (neverFails : NeverFails act)
    (domain : Domain)
    (state : State) :
    ((∃ formula after,
        outcome (domain.formulaWith act) state = (.ok formula, after)) ↔
      ∃ expressions, domain = write expressions) ∧
    (∀ left right,
      domain = write left → domain = write right → left = right) ∧
    ∀ expressions, domain = write expressions →
      ∃ bound after,
        outcome (bindAll act expressions) state = (.ok bound, after) ∧
        outcome (domain.formulaWith act) state =
          (.ok (.conjunction (bound.map formula)), after) := by
  have written : ∀ expressions, domain = write expressions →
      ∃ bound after,
        outcome (bindAll act expressions) state = (.ok bound, after) ∧
        outcome (domain.formulaWith act) state =
          (.ok (.conjunction (bound.map formula)), after) := by
    intro expressions domain_eq
    obtain ⟨bound, after, boundAll⟩ := neverFails.bindAll expressions state
    refine ⟨bound, after, boundAll, ?_⟩
    rw [domain_eq, formulaWith_write, outcome_bind, boundAll]
    simp
  refine ⟨⟨?_, ?_⟩, ?_, written⟩
  · rintro ⟨whole, after, read⟩
    rw [Domain.formulaWith, outcome_bind] at read
    rcases operandsRead : outcome (domain.operandsWith act 0) state with
      ⟨error | operands, middle⟩
    · simp [operandsRead] at read
    · obtain ⟨expressions, domain_eq, _⟩ :=
        exists_write_of_operandsWith operandsRead
      exact ⟨expressions, domain_eq⟩
  · rintro ⟨expressions, domain_eq⟩
    obtain ⟨bound, after, _, read⟩ := written expressions domain_eq
    exact ⟨_, after, read⟩
  · intro left right left_eq right_eq
    exact write_injective (left_eq.symm.trans right_eq)

/-- A domain with all markers, read by an action that counts the conditions it
has bound. -/
theorem formulaWith_reads_all_markers :
    let count : Condition → ExceptT Error (StateM Nat) Nat := fun _ => do
      let bound ← get
      set (bound + 1)
      pure bound
    let test : String → Condition := fun field => ⟨field, "=", .literal .null⟩
    let domain : Domain :=
      [.marker "!", .condition (test "a"), .marker "|", .marker "&",
        .condition (test "b"), .condition (test "c"), .condition (test "d")]
    NeverFails count ∧
    ((∃ formula after,
        outcome (domain.formulaWith count) 0 = (.ok formula, after)) ↔
      ∃ expressions, domain = write expressions) ∧
    domain = write
      [.not (.leaf (test "a")),
        .or (.and (.leaf (test "b")) (.leaf (test "c"))) (.leaf (test "d"))] ∧
    outcome (domain.formulaWith count) 0 =
      (.ok (.and
        [.not (.leaf 3), .or [.and [.leaf 2, .leaf 1], .leaf 0]]), 4) := by
  intro count test domain
  have neverFails : NeverFails count := fun _ state => ⟨state, state + 1, rfl⟩
  exact ⟨neverFails,
    (formulaWith_reads_exactly_expressions neverFails domain 0).1, rfl, rfl⟩

end Expression
end DomainSql
