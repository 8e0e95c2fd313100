import DomainSql.Filter.Basic
import DomainSql.Proofs.BindingRun
import DomainSql.Proofs.StatementColumns

/-!
# Domains without their texts

Two domains differ only in the contents of their texts when they are the same with all
texts emptied. Nothing that binds a domain looks into a text: the fields, the operators,
the functions and the markers decide, and binding commutes with emptying the texts.
-/

namespace DomainSql

/-! ## Emptying texts -/

namespace Literal

mutual

/-- A literal with its texts emptied. -/
def blanked : Literal → Literal
  | .null => .null
  | .bool value => .bool value
  | .int value => .int value
  | .float value => .float value
  | .text _ => .text ""
  | .list items => .list (blankedOf items)

/-- Literals with their texts emptied. -/
def blankedOf : List Literal → List Literal
  | [] => []
  | item :: rest => item.blanked :: blankedOf rest

end

mutual

/-- The texts in a literal from left to right. -/
def texts : Literal → List String
  | .null => []
  | .bool _ => []
  | .int _ => []
  | .float _ => []
  | .text value => [value]
  | .list items => textsOf items

/-- The texts in literals from left to right. -/
def textsOf : List Literal → List String
  | [] => []
  | item :: rest => item.texts ++ textsOf rest

end

theorem blankedOf_eq_map (items : List Literal) :
    blankedOf items = items.map blanked := by
  induction items with
  | nil => rfl
  | cons item rest inductionHypothesis =>
      rw [blankedOf, inductionHypothesis, List.map_cons]

theorem textsOf_eq_flatMap (items : List Literal) :
    textsOf items = items.flatMap texts := by
  induction items with
  | nil => rfl
  | cons item rest inductionHypothesis =>
      rw [textsOf, inductionHypothesis, List.flatMap_cons]

end Literal

namespace Argument

/-- An argument with its texts emptied. -/
def blanked : Argument → Argument
  | .field path => .field path
  | .literal value => .literal value.blanked

/-- The texts in an argument. -/
def texts : Argument → List String
  | .field _ => []
  | .literal value => value.texts

end Argument

/-- A call with its texts emptied. -/
def FunctionCall.blanked (call : FunctionCall) : FunctionCall :=
  ⟨call.function, call.arguments.map Argument.blanked⟩

namespace Operand

/-- An operand with its texts emptied. -/
def blanked : Operand → Operand
  | .literal value => .literal value.blanked
  | .field path => .field path
  | .call function => .call function.blanked

/-- The texts in an operand from left to right. -/
def texts : Operand → List String
  | .literal value => value.texts
  | .field _ => []
  | .call function => function.arguments.flatMap Argument.texts

end Operand

/-- A condition with its texts emptied. -/
def Condition.blanked (condition : Condition) : Condition :=
  { condition with operand := condition.operand.blanked }

/-- An item with its texts emptied. -/
def Item.blanked : Item → Item
  | .condition inner => .condition inner.blanked
  | .marker text => .marker text

namespace Domain

/-- A domain with its texts emptied. -/
def blanked (domain : Domain) : Domain :=
  domain.map Item.blanked

/-- The texts in a domain from left to right. -/
def texts (domain : Domain) : List String :=
  domain.conditions.flatMap fun condition => condition.operand.texts

end Domain

namespace BoundArgument

/-- A bound argument with its texts emptied. -/
def blanked : BoundArgument → BoundArgument
  | .column bound => .column bound
  | .literal value => .literal value.blanked

/-- The texts in a bound argument. -/
def texts : BoundArgument → List String
  | .column _ => []
  | .literal value => value.texts

end BoundArgument

/-- A bound call with its texts emptied. -/
def BoundCall.blanked (call : BoundCall) : BoundCall :=
  ⟨call.function, call.arguments.map BoundArgument.blanked⟩

namespace BoundOperand

/-- A bound operand with its texts emptied. -/
def blanked : BoundOperand → BoundOperand
  | .literal value => .literal value.blanked
  | .column bound => .column bound
  | .call function => .call function.blanked

/-- The texts in a bound operand from left to right. -/
def texts : BoundOperand → List String
  | .literal value => value.texts
  | .column _ => []
  | .call function => function.arguments.flatMap BoundArgument.texts

end BoundOperand

/-- A bound condition with its texts emptied. -/
def BoundCondition.blanked (condition : BoundCondition) : BoundCondition :=
  { condition with operand := condition.operand.blanked }

/-! ## Binding does not look into texts -/

theorem Argument.bind_blanked (argument : Argument) :
    argument.blanked.bind = BoundArgument.blanked <$> argument.bind := by
  cases argument with
  | field path => simp [blanked, bind, BoundArgument.blanked]
  | literal value => simp [blanked, bind, BoundArgument.blanked]

/-- Where an action commutes with a change, so does the run of it over entries. -/
theorem mapM_map_eq
    {Entry Result : Type}
    {act : Entry → Resolving Result}
    {change : Entry → Entry}
    {image : Result → Result}
    (commutes : ∀ entry, act (change entry) = image <$> act entry)
    (entries : List Entry) :
    (entries.map change).mapM act = List.map image <$> entries.mapM act := by
  induction entries with
  | nil => simp
  | cons entry rest inductionHypothesis =>
      simp [commutes, inductionHypothesis]

theorem FunctionCall.bind_blanked (call : FunctionCall) :
    call.blanked.bind = BoundCall.blanked <$> call.bind := by
  rw [bind, bind, blanked, List.length_map]
  split
  · simp [mapM_map_eq Argument.bind_blanked, BoundCall.blanked]
  · rfl

theorem Operand.bind_blanked (operand : Operand) :
    operand.blanked.bind = BoundOperand.blanked <$> operand.bind := by
  cases operand with
  | literal value => simp [blanked, bind, BoundOperand.blanked]
  | field path => simp [blanked, bind, BoundOperand.blanked]
  | call function =>
      simp [blanked, bind, BoundOperand.blanked, FunctionCall.bind_blanked]

theorem Condition.bind_blanked (condition : Condition) :
    condition.blanked.bind = BoundCondition.blanked <$> condition.bind := by
  rw [bind, bind]
  simp only [blanked]
  cases Comparison.ofToken? condition.operator with
  | none => rfl
  | some comparison =>
      simp [Operand.bind_blanked, BoundCondition.blanked]

namespace Domain

theorem operandsWith_blanked
    (domain : Domain)
    (position : Nat) :
    operandsWith Condition.bind position domain.blanked =
      List.map (Formula.map BoundCondition.blanked) <$>
        operandsWith Condition.bind position domain := by
  induction domain generalizing position with
  | nil => simp [blanked, operandsWith]
  | cons item rest inductionHypothesis =>
      have restEqual := inductionHypothesis (position + 1)
      rw [blanked] at restEqual
      rw [blanked, List.map_cons, operandsWith, operandsWith, restEqual]
      cases item with
      | condition condition =>
          simp [Item.blanked, Condition.bind_blanked, Formula.map]
      | marker text =>
          simp only [Item.blanked, bind_map_left, map_bind]
          refine bind_congr fun operands => ?_
          cases Marker.ofText? text with
          | none => rfl
          | some marker =>
              simp only [Marker.apply_map]
              cases marker.apply position operands <;> rfl

/-- A domain with its texts emptied is bound as the domain is, and gives the formula
with its texts emptied. -/
theorem bind_blanked (domain : Domain) :
    domain.blanked.bind = Formula.map BoundCondition.blanked <$> domain.bind := by
  rw [bind, bind, formulaWith, formulaWith, operandsWith_blanked]
  simp [Formula.map_conjunction]

end Domain

/-! ## Binding keeps texts -/

section Texts

variable {session after : Session}

/-- Where each result of a run shows what its entry shows, the results together show what
the entries do. -/
theorem map_eq_of_mapM
    {Entry Result Shown : Type}
    {act : Entry → Resolving Result}
    {shown : Entry → Shown}
    {shownOf : Result → Shown}
    (keeps : ∀ {entry session result after},
      outcome (act entry) session = (.ok result, after) → shownOf result = shown entry)
    {entries : List Entry}
    {results : List Result}
    (ran : outcome (entries.mapM act) session = (.ok results, after)) :
    results.map shownOf = entries.map shown := by
  have each := forall₂_ran_of_mapM ran
  clear ran
  induction each with
  | nil => rfl
  | cons first _ inductionHypothesis =>
      obtain ⟨_, _, ran⟩ := first
      rw [List.map_cons, List.map_cons, keeps ran, inductionHypothesis]

theorem Argument.texts_of_bind
    {argument : Argument}
    {bound : BoundArgument}
    (ran : outcome argument.bind session = (.ok bound, after)) :
    bound.texts = argument.texts := by
  cases argument with
  | field path =>
      obtain ⟨_, _, _, ran⟩ := outcome_bind_eq_ok_iff.mp ran
      cases ran
      rfl
  | literal value =>
      cases ran
      rfl

theorem Operand.texts_of_bind
    {operand : Operand}
    {bound : BoundOperand}
    (ran : outcome operand.bind session = (.ok bound, after)) :
    bound.texts = operand.texts := by
  cases operand with
  | literal value =>
      cases ran
      rfl
  | field path =>
      obtain ⟨_, _, _, ran⟩ := outcome_bind_eq_ok_iff.mp ran
      cases ran
      rfl
  | call function =>
      obtain ⟨call, _, callRan, ran⟩ := outcome_bind_eq_ok_iff.mp ran
      cases ran
      rw [FunctionCall.bind] at callRan
      split at callRan
      · obtain ⟨arguments, _, argumentsRan, callRan⟩ := outcome_bind_eq_ok_iff.mp callRan
        cases callRan
        have same := map_eq_of_mapM Argument.texts_of_bind argumentsRan
        rw [BoundOperand.texts, Operand.texts, List.flatMap_def, List.flatMap_def, same]
      · cases callRan

theorem Condition.texts_of_bind
    {condition : Condition}
    {bound : BoundCondition}
    (ran : outcome condition.bind session = (.ok bound, after)) :
    bound.operand.texts = condition.operand.texts := by
  rw [Condition.bind] at ran
  split at ran
  · cases ran
  · obtain ⟨_, _, _, ran⟩ := outcome_bind_eq_ok_iff.mp ran
    obtain ⟨operand, _, operandRan, ran⟩ := outcome_bind_eq_ok_iff.mp ran
    cases ran
    exact Operand.texts_of_bind operandRan

/-- The formula of a domain has the texts of the domain, in their order. -/
theorem Domain.texts_of_bind
    {domain : Domain}
    {formula : Formula BoundCondition}
    (ran : outcome domain.bind session = (.ok formula, after)) :
    formula.leaves.flatMap (fun leaf => leaf.operand.texts) = domain.texts := by
  obtain ⟨_, _, _, _, bindRan⟩ := exists_bound_of_formulaWith ran
  have same := map_eq_of_mapM Condition.texts_of_bind bindRan
  rw [List.map_reverse, List.map_reverse, List.reverse_inj] at same
  rw [Domain.texts, List.flatMap_def, List.flatMap_def, same]

end Texts
end DomainSql
