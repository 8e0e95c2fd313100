import DomainSql.Proofs.BranchingFormulas

/-!
# Formulas that are built again

The smart constructors look one level down only: they take the members of a member of
their own kind in its place. Building a formula again from its leaves still makes it
flat everywhere, because they are given formulas that are flat already. The leaves and
the truth values stay, and only a flat formula is built again to itself.
-/

namespace DomainSql
namespace Formula

variable {Leaf : Type}

/-! ## Flatness -/

/-- Flat formulas are combined to a flat one. -/
theorem isFlat_combine
    {formulas : List (Formula Leaf)}
    (flat : ∀ formula ∈ formulas, formula.isFlat = true)
    (combinator : Combinator) :
    (combine combinator formulas).isFlat = true := by
  rw [combine_eq_compound, isFlat_compound_iff]
  intro member inMembers
  obtain ⟨formula, inFormulas, inMembers⟩ := List.mem_flatMap.mp inMembers
  have whole := flat formula inFormulas
  exact forall_mem_membersBy
    (fun eq => (isFlat_compound_iff combinator).mp (eq ▸ whole))
    (fun different => ⟨different, whole⟩) member inMembers

/-- What is built again is flat. -/
theorem isFlat_rebuild (formula : Formula Leaf) : formula.rebuild.isFlat = true := by
  induction formula using memberInduction with
  | leaf value => rfl
  | compound combinator members inductionHypothesis =>
      rw [rebuild_compound]
      exact isFlat_combine (List.forall_mem_map.mpr inductionHypothesis) combinator
  | not inner inductionHypothesis => exact inductionHypothesis

/-! ## Leaves -/

theorem leavesOf_eq_flatMap (formulas : List (Formula Leaf)) :
    leavesOf formulas = formulas.flatMap leaves := by
  induction formulas with
  | nil => rfl
  | cons formula rest inductionHypothesis =>
      rw [leavesOf, inductionHypothesis, List.flatMap_cons]

/-- What is built again has the leaves that there were, in their order. -/
@[simp] theorem leaves_rebuild (formula : Formula Leaf) :
    formula.rebuild.leaves = formula.leaves := by
  induction formula using memberInduction with
  | leaf value => rfl
  | compound combinator members inductionHypothesis =>
      rw [rebuild_compound, leaves_combine, leaves_compound, leavesOf_eq_flatMap,
        leavesOf_eq_flatMap, List.flatMap_map]
      exact List.flatMap_congr inductionHypothesis
  | not inner inductionHypothesis => exact inductionHypothesis

/-! ## Truth -/

/-- What is built again has the truth value that there was, whatever the positions of
the leaves are given. -/
theorem evalFrom_rebuild
    (truth : Nat → Bool)
    (start : Nat)
    (formula : Formula Leaf) :
    formula.rebuild.evalFrom truth start = formula.evalFrom truth start := by
  induction formula using memberInduction generalizing start with
  | leaf value => rfl
  | compound combinator members inductionHypothesis =>
      rw [rebuild_compound, evalFrom_combine, evalFrom_compound]
      refine combinedFrom_map (fun member inMembers => ⟨?_, ?_⟩) combinator start
      · rw [leaves_rebuild]
      · exact fun start => inductionHypothesis member inMembers start
  | not inner inductionHypothesis =>
      rw [rebuild, evalFrom, evalFrom, inductionHypothesis]

/-- The truth value of formulas under a combinator, under truth values of their leaves. -/
def evalBy : Combinator → (Leaf → Bool) → List (Formula Leaf) → Bool
  | .and => evalAll
  | .or => evalAny

theorem evalBy_cons
    (combinator : Combinator)
    (truth : Leaf → Bool)
    (member : Formula Leaf)
    (rest : List (Formula Leaf)) :
    evalBy combinator truth (member :: rest) =
      combinator.apply (member.eval truth) (evalBy combinator truth rest) := by
  cases combinator <;> rfl

mutual

/-- A formula has the value that its leaves give it, if the positions have the values
of the leaves that stand there. -/
theorem evalFrom_of_agree
    {truth : Leaf → Bool}
    {valueAt : Nat → Bool} :
    ∀ {start : Nat} (formula : Formula Leaf),
      AgreesFrom valueAt truth start formula.leaves →
      formula.evalFrom valueAt start = formula.eval truth
  | _, .leaf value, agree => agree 0 value rfl
  | _, .and members, agree => combinedFrom_of_agree .and members agree
  | _, .or members, agree => combinedFrom_of_agree .or members agree
  | _, .not inner, agree => by
      rw [evalFrom, eval, evalFrom_of_agree inner agree]

theorem combinedFrom_of_agree
    {truth : Leaf → Bool}
    {valueAt : Nat → Bool}
    (combinator : Combinator) :
    ∀ {start : Nat} (formulas : List (Formula Leaf)),
      AgreesFrom valueAt truth start (leavesOf formulas) →
      combinedFrom combinator valueAt start formulas = evalBy combinator truth formulas
  | _, [], _ => by cases combinator <;> rfl
  | _, formula :: rest, agree => by
      obtain ⟨first, others⟩ := AgreesFrom.of_append agree
      rw [combinedFrom_cons, evalBy_cons, evalFrom_of_agree formula first,
        combinedFrom_of_agree combinator rest others]

end

/-- The truth values of leaves are those of the positions at which they stand. -/
theorem eval_eq_evalFrom
    (truth : Leaf → Bool)
    (formula : Formula Leaf) :
    formula.eval truth =
      formula.evalFrom (fun position => formula.leaves[position]?.any truth) 0 :=
  (evalFrom_of_agree formula (agreesFrom_any truth formula.leaves)).symm

/-- What is built again has the truth value that there was. -/
theorem eval_rebuild
    (truth : Leaf → Bool)
    (formula : Formula Leaf) :
    formula.rebuild.eval truth = formula.eval truth := by
  rw [eval_eq_evalFrom, eval_eq_evalFrom, leaves_rebuild, evalFrom_rebuild]

/-! ## The normal form -/

/-- A formula that is built again is flat, has the same leaves in the same order, and
has the same truth value, whether truth is given to the leaves or to the places at which
they stand. Building it once more changes nothing, and the formulas that do not change
are exactly the flat ones. -/
theorem rebuild_flattens_and_keeps_meaning (formula : Formula Leaf) :
    formula.rebuild.isFlat = true ∧
    formula.rebuild.leaves = formula.leaves ∧
    (∀ truth, formula.rebuild.eval truth = formula.eval truth) ∧
    (∀ truth start,
      formula.rebuild.evalFrom truth start = formula.evalFrom truth start) ∧
    formula.rebuild.rebuild = formula.rebuild ∧
    (formula.rebuild = formula ↔ formula.isFlat = true) := by
  have flat := isFlat_rebuild formula
  refine ⟨flat, leaves_rebuild formula, fun truth => eval_rebuild truth formula,
    fun truth start => evalFrom_rebuild truth start formula,
    rebuild_of_isFlat flat, ?_, rebuild_of_isFlat⟩
  intro same
  rwa [same] at flat

end Formula
end DomainSql
