import DomainSql.Proofs.FormulaShape
import Mathlib.Data.List.Forall2

/-!
# The optimizer of rule trees

An optimized tree is flat, and it has the rules and the truth value of the tree that it
comes from. Truth is given to the rules of a tree by their positions, counted from left
to right, so that equal rules at different positions may differ. One step of the
optimizer either splices trees that are flat already, which puts no query under one with
its own combinator, or drops a query whose only member has its rules and its value.
-/

namespace DomainSql

namespace RuleTree

mutual

/-- The truth value of a tree under truth values of positions. Its rules have the
positions from `start` on. -/
def evalFrom
    (truth : Nat → Bool)
    (start : Nat) : RuleTree → Bool
  | .rule _ => truth start
  | .query combinator members => combinedFrom combinator truth start members

/-- The truth value of trees under a combinator, with the positions from `start` on for
their rules. -/
def combinedFrom
    (combinator : Combinator)
    (truth : Nat → Bool) : Nat → List RuleTree → Bool
  | _, [] => combinator.neutral
  | start, member :: rest =>
      combinator.apply (member.evalFrom truth start)
        (combinedFrom combinator truth (start + member.rules.length) rest)

end

/-- The truth value of trees under a combinator. -/
def evalBy : Combinator → (Rule → Bool) → List RuleTree → Bool
  | .and => evalAll
  | .or => evalAny

theorem evalBy_nil
    (combinator : Combinator)
    (truth : Rule → Bool) :
    evalBy combinator truth [] = combinator.neutral := by
  cases combinator <;> rfl

theorem evalBy_cons
    (combinator : Combinator)
    (truth : Rule → Bool)
    (member : RuleTree)
    (rest : List RuleTree) :
    evalBy combinator truth (member :: rest) =
      combinator.apply (member.eval truth) (evalBy combinator truth rest) := by
  cases combinator <;> rfl

theorem eval_query
    (combinator : Combinator)
    (truth : Rule → Bool)
    (members : List RuleTree) :
    (query combinator members).eval truth = evalBy combinator truth members := by
  cases combinator <;> simp [eval, evalBy]

mutual

/-- A tree has the same truth value under truth values of rules and under those of
positions that agree with them. -/
theorem evalFrom_of_agree
    {truth : Rule → Bool}
    {valueAt : Nat → Bool} :
    ∀ {start : Nat} (tree : RuleTree),
      AgreesFrom valueAt truth start tree.rules →
      tree.evalFrom valueAt start = tree.eval truth
  | _, .rule inner, agree => agree 0 inner rfl
  | _, .query combinator members, agree => by
      rw [evalFrom, eval_query, combinedFrom_of_agree combinator members agree]

theorem combinedFrom_of_agree
    {truth : Rule → Bool}
    {valueAt : Nat → Bool}
    (combinator : Combinator) :
    ∀ {start : Nat} (trees : List RuleTree),
      AgreesFrom valueAt truth start (rulesOf trees) →
      combinedFrom combinator valueAt start trees = evalBy combinator truth trees
  | _, [], _ => by rw [combinedFrom, evalBy_nil]
  | _, tree :: rest, agree => by
      obtain ⟨first, others⟩ := AgreesFrom.of_append agree
      rw [combinedFrom, evalBy_cons, evalFrom_of_agree tree first,
        combinedFrom_of_agree combinator rest others]

end

/-- Truth values of rules are those of the positions at which the rules stand. -/
theorem eval_eq_evalFrom
    (truth : Rule → Bool)
    (tree : RuleTree) :
    tree.eval truth =
      tree.evalFrom (fun position => tree.rules[position]?.any truth) 0 :=
  (evalFrom_of_agree tree (agreesFrom_any truth tree.rules)).symm

/-! ## Parts -/

@[simp] theorem rulesOf_append (front back : List RuleTree) :
    rulesOf (front ++ back) = rulesOf front ++ rulesOf back := by
  induction front with
  | nil => rfl
  | cons tree rest inductionHypothesis => simp [rulesOf, inductionHypothesis]

theorem combinedFrom_append
    (combinator : Combinator)
    (truth : Nat → Bool)
    (start : Nat)
    (front back : List RuleTree) :
    combinedFrom combinator truth start (front ++ back) =
      combinator.apply (combinedFrom combinator truth start front)
        (combinedFrom combinator truth (start + (rulesOf front).length) back) := by
  induction front generalizing start with
  | nil => simp [combinedFrom, rulesOf]
  | cons tree rest inductionHypothesis =>
      simp [combinedFrom, rulesOf, inductionHypothesis, Combinator.apply_assoc,
        Nat.add_assoc]

theorem areFlat_iff {trees : List RuleTree} :
    areFlat trees = true ↔ ∀ tree ∈ trees, tree.isFlat = true := by
  induction trees with
  | nil => simp [areFlat]
  | cons tree rest inductionHypothesis => simp [areFlat, inductionHypothesis]

theorem isFlat_query_iff
    {combinator : Combinator}
    {members : List RuleTree} :
    (query combinator members).isFlat = true ↔
      ∀ member ∈ members,
        member.combinesBy combinator = false ∧ member.isFlat = true := by
  simp [isFlat, areFlat_iff, forall_and]

/-- The parts of a tree under a combinator are the members of a query with this
combinator, and the tree itself otherwise. -/
theorem partsBy_cases
    (combinator : Combinator)
    (tree : RuleTree) :
    (∃ members, tree = .query combinator members ∧ tree.partsBy combinator = members) ∨
      (tree.combinesBy combinator = false ∧ tree.partsBy combinator = [tree]) := by
  cases tree with
  | rule inner => exact .inr ⟨rfl, rfl⟩
  | query other members =>
      by_cases same : other = combinator
      · subst same
        exact .inl ⟨members, rfl, by simp [partsBy]⟩
      · exact .inr ⟨by simpa [combinesBy] using same, by simp [partsBy, same]⟩

/-- The parts of a flat tree are flat, and no part is a query with the combinator. -/
theorem of_mem_partsBy
    {combinator : Combinator}
    {tree part : RuleTree}
    (flat : tree.isFlat = true)
    (inParts : part ∈ tree.partsBy combinator) :
    part.combinesBy combinator = false ∧ part.isFlat = true := by
  rcases partsBy_cases combinator tree with ⟨members, rfl, parts_eq⟩ | ⟨other, parts_eq⟩
  · rw [parts_eq] at inParts
    exact isFlat_query_iff.mp flat part inParts
  · rw [parts_eq, List.mem_singleton] at inParts
    subst inParts
    exact ⟨other, flat⟩

theorem rulesOf_partsBy
    (combinator : Combinator)
    (tree : RuleTree) :
    rulesOf (tree.partsBy combinator) = tree.rules := by
  rcases partsBy_cases combinator tree with ⟨members, rfl, parts_eq⟩ | ⟨_, parts_eq⟩
  · rw [parts_eq, rules]
  · simp [parts_eq, rulesOf]

theorem combinedFrom_partsBy
    (combinator : Combinator)
    (truth : Nat → Bool)
    (start : Nat)
    (tree : RuleTree) :
    combinedFrom combinator truth start (tree.partsBy combinator) =
      tree.evalFrom truth start := by
  rcases partsBy_cases combinator tree with ⟨members, rfl, parts_eq⟩ | ⟨_, parts_eq⟩
  · rw [parts_eq, evalFrom]
  · simp [parts_eq, combinedFrom]

/-! ## Splicing -/

/-- Splicing flat trees gives a flat tree. -/
theorem isFlat_spliced
    (combinator : Combinator)
    {trees : List RuleTree}
    (flat : ∀ tree ∈ trees, tree.isFlat = true) :
    (spliced combinator trees).isFlat = true := by
  rw [spliced, isFlat_query_iff]
  intro part inParts
  obtain ⟨tree, inTrees, inParts⟩ := List.mem_flatMap.mp inParts
  exact of_mem_partsBy (flat tree inTrees) inParts

/-- Splicing keeps the rules. -/
theorem rules_spliced
    (combinator : Combinator)
    (trees : List RuleTree) :
    (spliced combinator trees).rules = rulesOf trees := by
  rw [spliced, rules]
  induction trees with
  | nil => rfl
  | cons tree rest inductionHypothesis =>
      rw [List.flatMap_cons, rulesOf_append, rulesOf_partsBy, inductionHypothesis, rulesOf]

/-- Splicing keeps the truth value. -/
theorem evalFrom_spliced
    (combinator : Combinator)
    (truth : Nat → Bool)
    (start : Nat)
    (trees : List RuleTree) :
    (spliced combinator trees).evalFrom truth start =
      combinedFrom combinator truth start trees := by
  rw [spliced, evalFrom]
  induction trees generalizing start with
  | nil => rfl
  | cons tree rest inductionHypothesis =>
      rw [List.flatMap_cons, combinedFrom_append, combinedFrom_partsBy, rulesOf_partsBy,
        inductionHypothesis, combinedFrom]

/-! ## The optimizer -/

/-- A flat tree with the rules of another one, and with its truth value under all truth
values of positions. -/
structure Flattens (optimized tree : RuleTree) : Prop where
  flat : optimized.isFlat = true
  rules_eq : optimized.rules = tree.rules
  evalFrom_eq (truth : Nat → Bool) (start : Nat) :
    optimized.evalFrom truth start = tree.evalFrom truth start

/-- Trees that flatten others one by one have their rules, and their truth value under a
combinator. -/
theorem flattens_members
    {optimized trees : List RuleTree}
    (each : List.Forall₂ Flattens optimized trees) :
    (∀ tree ∈ optimized, tree.isFlat = true) ∧
    rulesOf optimized = rulesOf trees ∧
    ∀ combinator truth start,
      combinedFrom combinator truth start optimized =
        combinedFrom combinator truth start trees := by
  induction each with
  | nil => exact ⟨nofun, rfl, fun _ _ _ => rfl⟩
  | cons first _ inductionHypothesis =>
      obtain ⟨flat, rules_eq, combined_eq⟩ := inductionHypothesis
      refine ⟨List.forall_mem_cons.mpr ⟨first.flat, flat⟩, ?_, ?_⟩
      · rw [rulesOf, rulesOf, first.rules_eq, rules_eq]
      · intro combinator truth start
        rw [combinedFrom, combinedFrom, first.evalFrom_eq, first.rules_eq, combined_eq]

/-- Trees that flatten the members of a query are spliced to a tree that flattens the
query. -/
theorem Flattens.spliced
    {optimized members : List RuleTree}
    (each : List.Forall₂ Flattens optimized members)
    (combinator : Combinator) :
    (RuleTree.spliced combinator optimized).Flattens (.query combinator members) := by
  obtain ⟨flat, rules_eq, combined_eq⟩ := flattens_members each
  refine ⟨isFlat_spliced combinator flat, ?_, fun truth start => ?_⟩
  · rw [rules_spliced, rules_eq, rules]
  · rw [evalFrom_spliced, combined_eq, evalFrom]

/-- What flattens the only member of a query flattens the query, whatever its
combinator. -/
theorem Flattens.onlyMember
    {optimized member : RuleTree}
    (flattens : optimized.Flattens member)
    (combinator : Combinator) :
    optimized.Flattens (.query combinator [member]) where
  flat := flattens.flat
  rules_eq := by simp [rules, rulesOf, flattens.rules_eq]
  evalFrom_eq truth start := by simp [evalFrom, combinedFrom, flattens.evalFrom_eq]

mutual

theorem flattens_optimize : ∀ tree : RuleTree, tree.optimize.Flattens tree
  | .rule _ => ⟨rfl, rfl, fun _ _ => rfl⟩
  | .query combinator members => by
      have each := flattens_optimizeAll members
      rw [optimize]
      split
      · -- The only member has been optimized to a query, which takes the place of this one.
        rename_i inner nested single
        rw [single] at each
        cases each with
        | cons first none =>
            cases none
            exact first.onlyMember combinator
      · exact .spliced each combinator

theorem flattens_optimizeAll :
    ∀ trees : List RuleTree, List.Forall₂ Flattens (optimizeAll trees) trees
  | [] => .nil
  | tree :: rest => .cons (flattens_optimize tree) (flattens_optimizeAll rest)

end

/-- An optimized tree is flat. It has the rules of the tree that it comes from, in the
same order, and the same truth value: under all truth values of the positions of its rules,
and thus also under all truth values of the rules themselves. -/
theorem optimize_flattens_and_keeps_truth (tree : RuleTree) :
    tree.optimize.isFlat = true ∧
    tree.optimize.rules = tree.rules ∧
    (∀ truth : Nat → Bool, tree.optimize.evalFrom truth 0 = tree.evalFrom truth 0) ∧
    ∀ truth : Rule → Bool, tree.optimize.eval truth = tree.eval truth := by
  have flattens := flattens_optimize tree
  refine ⟨flattens.flat, flattens.rules_eq, fun truth => flattens.evalFrom_eq truth 0, ?_⟩
  intro truth
  rw [eval_eq_evalFrom, eval_eq_evalFrom, flattens.rules_eq, flattens.evalFrom_eq]

/-- A member that gives way to its only member may combine as its parent does. -/
example :
    let first := rule ⟨"a", "=", .literal .null⟩
    let second := rule ⟨"b", "=", .literal .null⟩
    (query .or [query .and [query .or [first, second]], query .and []]).optimize =
      query .or [first, second, query .and []] := by
  rfl

end RuleTree
end DomainSql
