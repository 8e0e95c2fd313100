import DomainSql.Proofs.BranchingFormulas
import DomainSql.Proofs.NotedCalls

/-!
# Traversing a formula

Replacing the leaves of a formula by the results of an action is a run of the action
over the list of its leaves, from left to right: the result has the shape of the formula
and the results of the run for its leaves. This holds of every kind of action. An action
that may fail and that keeps a state is called on every leaf once, or up to the first
one that fails.
-/

namespace DomainSql
namespace Formula

variable {Leaf Image : Type}

/-! ## Shapes -/

/-- A formula without its leaves. -/
def shape (formula : Formula Leaf) : Formula Unit :=
  formula.map fun _ => ()

theorem shape_compound
    (combinator : Combinator)
    (members : List (Formula Leaf)) :
    (compound combinator members).shape = compound combinator (members.map shape) :=
  map_compound _ combinator members

theorem shape_not (inner : Formula Leaf) :
    (not inner).shape = .not inner.shape := rfl

theorem combinesBy_map
    (image : Leaf → Image)
    (combinator : Combinator)
    (formula : Formula Leaf) :
    (formula.map image).combinesBy combinator = formula.combinesBy combinator := by
  cases combinator <;> cases formula <;> rfl

/-- Whether a formula is flat does not depend on its leaves. -/
theorem isFlat_map
    (image : Leaf → Image)
    (formula : Formula Leaf) :
    (formula.map image).isFlat = formula.isFlat := by
  induction formula using memberInduction with
  | leaf value => rfl
  | compound combinator members inductionHypothesis =>
      rw [map_compound, Bool.eq_iff_iff, isFlat_compound_iff, isFlat_compound_iff,
        List.forall_mem_map]
      refine forall₂_congr fun member inMembers => ?_
      rw [combinesBy_map, inductionHypothesis member inMembers]
  | not inner inductionHypothesis => exact inductionHypothesis

/-- Formulas of one shape are flat together. -/
theorem isFlat_eq_of_shape_eq
    {left : Formula Leaf}
    {right : Formula Image}
    (same : left.shape = right.shape) :
    left.isFlat = right.isFlat := by
  have flat := congrArg isFlat same
  rwa [shape, shape, isFlat_map, isFlat_map] at flat

/-! ## Traversals as runs over the leaves -/

theorem mapM_compound
    {Action : Type → Type}
    [Monad Action]
    (act : Leaf → Action Image)
    (combinator : Combinator)
    (members : List (Formula Leaf)) :
    (compound combinator members).mapM act = (do
      let images ← mapAllM act members
      pure (compound combinator images)) := by
  cases combinator <;> rfl

section Runs

variable {Action : Type → Type} [Monad Action] [LawfulMonad Action]

/-- Traversing the formula runs the action over its leaves, and puts the results in the
places of the leaves. -/
def RunsOverLeaves
    (act : Leaf → Action Image)
    (formula : Formula Leaf) : Prop :=
  (fun image => (image.shape, image.leaves)) <$> formula.mapM act =
    (fun images => (formula.shape, images)) <$> formula.leaves.mapM act

theorem shapes_leavesOf_mapAllM
    {act : Leaf → Action Image}
    {formulas : List (Formula Leaf)}
    (each : ∀ formula ∈ formulas, formula.RunsOverLeaves act) :
    (fun images => (images.map shape, leavesOf images)) <$> mapAllM act formulas =
      (fun images => (formulas.map shape, images)) <$> (leavesOf formulas).mapM act := by
  induction formulas with
  | nil => simp [mapAllM, leavesOf]
  | cons formula rest inductionHypothesis =>
      obtain ⟨first, others⟩ := List.forall_mem_cons.mp each
      have split :
          (fun images => (images.map shape, leavesOf images)) <$>
              mapAllM act (formula :: rest) = (do
            let first ← (fun image => (image.shape, image.leaves)) <$> formula.mapM act
            let others ← (fun images => (images.map shape, leavesOf images)) <$>
              mapAllM act rest
            pure (first.1 :: others.1, first.2 ++ others.2)) := by
        simp [mapAllM, leavesOf]
      rw [split, first, inductionHypothesis others, leavesOf, List.mapM_append]
      simp

theorem runsOverLeaves
    (act : Leaf → Action Image)
    (formula : Formula Leaf) :
    formula.RunsOverLeaves act := by
  unfold RunsOverLeaves
  induction formula using memberInduction with
  | leaf value => simp [mapM, leaves, shape, map]
  | compound combinator members inductionHypothesis =>
      have run := congrArg (Prod.map (compound combinator) id <$> ·)
        (shapes_leavesOf_mapAllM inductionHypothesis)
      simpa [mapM_compound, shape_compound] using run
  | not inner inductionHypothesis =>
      have run := congrArg (Prod.map Formula.not id <$> ·) inductionHypothesis
      simpa [mapM, leaves, shape_not] using run

end Runs

/-! ## Actions that may fail and keep a state -/

section Calls

variable {State Failure : Type} {act : Leaf → ExceptT Failure (StateM State) Image}
  {formula : Formula Leaf} {state after : State}

/-- The run over the leaves and the traversal end alike, with the same state behind
them. -/
theorem run_mapM_eq
    (act : Leaf → ExceptT Failure (StateM State) Image)
    (formula : Formula Leaf)
    (state : State) :
    (((formula.mapM act).run.run state).1.map fun image => (image.shape, image.leaves),
        ((formula.mapM act).run.run state).2) =
      (((formula.leaves.mapM act).run.run state).1.map fun images =>
          (formula.shape, images),
        ((formula.leaves.mapM act).run.run state).2) := by
  rw [← run_map, ← run_map, runsOverLeaves act formula]

/-- When the action succeeds on all leaves, one after the other, the traversal does. -/
theorem run_mapM_of_ok
    {images : List Image}
    (ran : (formula.leaves.mapM act).run.run state = (.ok images, after)) :
    ∃ image, (formula.mapM act).run.run state = (.ok image, after) ∧
      image.shape = formula.shape ∧ image.leaves = images := by
  have same := run_mapM_eq act formula state
  rw [ran] at same
  rcases ended : (formula.mapM act).run.run state with ⟨failure | image, last⟩ <;>
    rw [ended] at same
  · cases (Prod.mk.inj same).1
  · obtain ⟨imageSame, rfl⟩ := Prod.mk.inj same
    obtain ⟨shapeSame, leavesSame⟩ := Prod.mk.inj (Except.ok.inj imageSame)
    exact ⟨image, rfl, shapeSame, leavesSame⟩

/-- When the action fails on one of the leaves, the traversal does. -/
theorem run_mapM_of_error
    {failure : Failure}
    (ran : (formula.leaves.mapM act).run.run state = (.error failure, after)) :
    (formula.mapM act).run.run state = (.error failure, after) := by
  have same := run_mapM_eq act formula state
  rw [ran] at same
  rcases ended : (formula.mapM act).run.run state with ⟨other | image, last⟩ <;>
    rw [ended] at same
  · obtain ⟨failureSame, rfl⟩ := Prod.mk.inj same
    rw [Except.error.inj failureSame]
  · cases (Prod.mk.inj same).1

theorem notes_mapAllM
    {formulas : List (Formula Leaf)}
    (each : ∀ formula ∈ formulas, Notes (formula.mapM (notingCalls act)) (formula.mapM act)) :
    Notes (mapAllM (notingCalls act) formulas) (mapAllM act formulas) := by
  induction formulas with
  | nil => exact .pure _
  | cons formula rest inductionHypothesis =>
      obtain ⟨first, others⟩ := List.forall_mem_cons.mp each
      unfold mapAllM
      exact first.bind fun _ => (inductionHypothesis others).bind fun _ => .pure _

/-- Noting the leaves changes nothing else about a traversal. -/
theorem notes_mapM
    (act : Leaf → ExceptT Failure (StateM State) Image)
    (formula : Formula Leaf) :
    Notes (formula.mapM (notingCalls act)) (formula.mapM act) := by
  induction formula using memberInduction with
  | leaf value =>
      unfold mapM
      exact (Notes.noting value (act value)).bind fun _ => .pure _
  | compound combinator members inductionHypothesis =>
      rw [mapM_compound, mapM_compound]
      exact (notes_mapAllM inductionHypothesis).bind fun _ => .pure _
  | not inner inductionHypothesis =>
      unfold mapM
      exact inductionHypothesis.bind fun _ => .pure _

/-- An action that may fail and that keeps a state is called on the leaves of a formula
from left to right, on each of them once. If it succeeds on all of them, the result has
the shape of the formula and the results of the calls for its leaves, in order.
Otherwise the error is that of the first leaf on which the action fails, and the action
has been called on the leaves up to this one and on no others. -/
theorem mapM_calls_leaves_in_order
    (act : Leaf → ExceptT Failure (StateM State) Image)
    (formula : Formula Leaf)
    (state : State) :
    let noted := (formula.mapM (notingCalls act)).run.run (state, [])
    (formula.mapM act).run.run state = (noted.1, noted.2.1) ∧
    ((∃ image after,
        (formula.leaves.mapM act).run.run state = (.ok image.leaves, after) ∧
        image.shape = formula.shape ∧
        image.isFlat = formula.isFlat ∧
        noted = (.ok image, after, formula.leaves)) ∨
      ∃ front leaf rest images before failure after,
        formula.leaves = front ++ leaf :: rest ∧
        (front.mapM act).run.run state = (.ok images, before) ∧
        (act leaf).run.run before = (.error failure, after) ∧
        noted = (.error failure, after, front ++ [leaf])) := by
  refine ⟨notes_mapM act formula state [], ?_⟩
  rcases run_mapM_notingCalls act formula.leaves state [] with
    ⟨images, after, ran, notedRan⟩ |
    ⟨front, leaf, rest, images, before, failure, after, parts, ran, failed, notedRan⟩
  · obtain ⟨image, traversed, shapeSame, rfl⟩ := run_mapM_of_ok notedRan
    exact .inl ⟨image, after, ran, shapeSame, isFlat_eq_of_shape_eq shapeSame, traversed⟩
  · exact .inr ⟨front, leaf, rest, images, before, failure, after, parts, ran, failed,
      run_mapM_of_error notedRan⟩

end Calls

end Formula
end DomainSql
