import DomainSql.Formula.Basic
import DomainSql.RuleTree.Basic
import Mathlib.Data.List.Basic

/-!
# Shapes of formulas

A formula is proper when each of its conjunctions and disjunctions has two members
at least and none of its own kind. What the smart constructors make of proper
formulas is proper again, up to a conjunction of fewer than two formulas.

Truth is also given to the leaves of a formula by their positions, counted from
left to right, so that formulas over different leaves can be compared.

Conjunctions and disjunctions are compounds of one form, by a combinator. What holds of
both is said of compounds.
-/

namespace DomainSql

/-! ## Truth values at positions -/

section Agreement

variable {Value : Type} {valueAt : Nat → Bool} {truth : Value → Bool}

/-- From `start` on the positions have the truth values of the values that stand there. -/
def AgreesFrom
    (valueAt : Nat → Bool)
    (truth : Value → Bool)
    (start : Nat)
    (values : List Value) : Prop :=
  ∀ position value, values[position]? = some value →
    valueAt (start + position) = truth value

theorem AgreesFrom.of_append
    {start : Nat}
    {front back : List Value}
    (agree : AgreesFrom valueAt truth start (front ++ back)) :
    AgreesFrom valueAt truth start front ∧
      AgreesFrom valueAt truth (start + front.length) back := by
  constructor
  · intro position value found
    apply agree
    rw [List.getElem?_append_left (List.getElem?_eq_some_iff.mp found).1, found]
  · intro position value found
    rw [Nat.add_assoc]
    apply agree
    rw [List.getElem?_append_right (Nat.le_add_right _ _), Nat.add_sub_cancel_left, found]

/-- There are truth values of positions that agree with those of values. -/
theorem agreesFrom_any
    (truth : Value → Bool)
    (values : List Value) :
    AgreesFrom (fun position => values[position]?.any truth) truth 0 values := by
  intro position value found
  simp [found]

end Agreement

namespace Formula

variable {Leaf Image : Type}

mutual

/-- Replace every leaf by its image. -/
def map (image : Leaf → Image) : Formula Leaf → Formula Image
  | .leaf value => .leaf (image value)
  | .and members => .and (mapAll image members)
  | .or members => .or (mapAll image members)
  | .not inner => .not (inner.map image)

/-- Replace every leaf of each of the formulas. -/
def mapAll (image : Leaf → Image) : List (Formula Leaf) → List (Formula Image)
  | [] => []
  | member :: rest => member.map image :: mapAll image rest

end

mutual

/-- The truth value of a formula under truth values of positions. Its leaves have
the positions from `start` on. -/
def evalFrom
    (truth : Nat → Bool)
    (start : Nat) : Formula Leaf → Bool
  | .leaf _ => truth start
  | .and members => evalAllFrom truth start members
  | .or members => evalAnyFrom truth start members
  | .not inner => !inner.evalFrom truth start

/-- Whether all of the formulas are true, with the positions from `start` on for
their leaves. -/
def evalAllFrom
    (truth : Nat → Bool) : Nat → List (Formula Leaf) → Bool
  | _, [] => true
  | start, member :: rest =>
      member.evalFrom truth start
        && evalAllFrom truth (start + member.leaves.length) rest

/-- Whether one of the formulas is true, with the positions from `start` on for
their leaves. -/
def evalAnyFrom
    (truth : Nat → Bool) : Nat → List (Formula Leaf) → Bool
  | _, [] => false
  | start, member :: rest =>
      member.evalFrom truth start
        || evalAnyFrom truth (start + member.leaves.length) rest

end

/-- Every conjunction and disjunction has two members at least and none of its own
kind. -/
inductive Proper : Formula Leaf → Prop
  | leaf (value : Leaf) : Proper (.leaf value)
  | and
      {members : List (Formula Leaf)}
      (two_le : 2 ≤ members.length)
      (notAnd : ∀ member ∈ members, member.isAnd = false)
      (proper : ∀ member ∈ members, Proper member) :
      Proper (.and members)
  | or
      {members : List (Formula Leaf)}
      (two_le : 2 ≤ members.length)
      (notOr : ∀ member ∈ members, member.isOr = false)
      (proper : ∀ member ∈ members, Proper member) :
      Proper (.or members)
  | not
      {inner : Formula Leaf}
      (proper : Proper inner) :
      Proper (.not inner)

/-- There is no negation in the formula. -/
inductive Positive : Formula Leaf → Prop
  | leaf (value : Leaf) : Positive (.leaf value)
  | and
      {members : List (Formula Leaf)}
      (positive : ∀ member ∈ members, Positive member) :
      Positive (.and members)
  | or
      {members : List (Formula Leaf)}
      (positive : ∀ member ∈ members, Positive member) :
      Positive (.or members)

/-- A leaf, or a disjunction of leaves. -/
def IsClause : Formula Leaf → Prop
  | .leaf _ => True
  | .or members => ∀ member ∈ members, ∃ value, member = .leaf value
  | _ => False

/-- A conjunction of leaves and of disjunctions of leaves. -/
def IsClausal (formula : Formula Leaf) : Prop :=
  ∃ clauses, formula = .and clauses ∧ ∀ clause ∈ clauses, clause.IsClause

/-! ## Compounds -/

/-- The conjunction or the disjunction with these members. -/
def compound : Combinator → List (Formula Leaf) → Formula Leaf
  | .and => .and
  | .or => .or

/-- Whether a formula is a compound by this combinator. -/
def combinesBy : Combinator → Formula Leaf → Bool
  | .and => isAnd
  | .or => isOr

/-- The members of a formula under a combinator, or the formula itself. -/
def membersBy : Combinator → Formula Leaf → List (Formula Leaf)
  | .and => conjuncts
  | .or => disjuncts

/-- The formula of formulas under a combinator. -/
def combine : Combinator → List (Formula Leaf) → Formula Leaf
  | .and => conjunction
  | .or => disjunction

/-- The truth value of formulas under a combinator, with the positions from `start` on
for their leaves. -/
def combinedFrom : Combinator → (Nat → Bool) → Nat → List (Formula Leaf) → Bool
  | .and => evalAllFrom
  | .or => evalAnyFrom

/-- What holds of every leaf, of a compound if it holds of its members, and of a negation
if it holds of its inner formula, holds of every formula. -/
@[elab_as_elim]
theorem memberInduction
    {motive : Formula Leaf → Prop}
    (leaf : ∀ value, motive (.leaf value))
    (compound : ∀ combinator members,
      (∀ member ∈ members, motive member) → motive (.compound combinator members))
    (not : ∀ inner, motive inner → motive (.not inner))
    (formula : Formula Leaf) : motive formula :=
  @Formula.rec Leaf motive (fun members => ∀ member ∈ members, motive member)
    leaf (compound .and) (compound .or) not nofun
    (fun _ _ first rest => List.forall_mem_cons.mpr ⟨first, rest⟩) formula

theorem combine_eq_compound
    (combinator : Combinator)
    (formulas : List (Formula Leaf)) :
    combine combinator formulas =
      compound combinator (formulas.flatMap (membersBy combinator)) := by
  cases combinator <;> rfl

/-- The members of a formula under a combinator are those of a compound by it, and the
formula itself otherwise. -/
theorem membersBy_cases
    (combinator : Combinator)
    (formula : Formula Leaf) :
    (∃ members, formula = compound combinator members ∧
      formula.membersBy combinator = members) ∨
    (formula.combinesBy combinator = false ∧
      formula.membersBy combinator = [formula]) := by
  cases combinator <;> cases formula <;>
    simp [compound, combinesBy, membersBy, isAnd, isOr, conjuncts, disjuncts]

/-- What holds of the members of a formula that is a compound by the combinator, and of
the formula itself when it is none, holds of all its members under the combinator. -/
theorem forall_mem_membersBy
    {combinator : Combinator}
    {formula : Formula Leaf}
    {holds : Formula Leaf → Prop}
    (inside : ∀ {members}, formula = compound combinator members →
      ∀ member ∈ members, holds member)
    (itself : formula.combinesBy combinator = false → holds formula) :
    ∀ member ∈ formula.membersBy combinator, holds member := by
  rcases membersBy_cases combinator formula with
    ⟨members, whole, members_eq⟩ | ⟨different, members_eq⟩
  · rw [members_eq]
    exact inside whole
  · simpa [members_eq] using itself different

/-! ## Leaves -/

@[simp] theorem leaves_compound
    (combinator : Combinator)
    (members : List (Formula Leaf)) :
    (compound combinator members).leaves = leavesOf members := by
  cases combinator <;> rfl

theorem leavesOf_membersBy
    (combinator : Combinator)
    (formula : Formula Leaf) :
    leavesOf (formula.membersBy combinator) = formula.leaves := by
  rcases membersBy_cases combinator formula with ⟨members, rfl, members_eq⟩ | ⟨_, members_eq⟩
  · rw [members_eq, leaves_compound]
  · simp [members_eq, leavesOf]

/-- A combined formula has the leaves of its formulas. -/
theorem leaves_combine
    (combinator : Combinator)
    (formulas : List (Formula Leaf)) :
    (combine combinator formulas).leaves = leavesOf formulas := by
  rw [combine_eq_compound, leaves_compound]
  induction formulas with
  | nil => rfl
  | cons formula rest inductionHypothesis =>
      rw [List.flatMap_cons, leavesOf_append, leavesOf_membersBy, inductionHypothesis,
        leavesOf]

@[simp] theorem leaves_conjunction (formulas : List (Formula Leaf)) :
    (conjunction formulas).leaves = leavesOf formulas :=
  leaves_combine .and formulas

@[simp] theorem leaves_disjunction (formulas : List (Formula Leaf)) :
    (disjunction formulas).leaves = leavesOf formulas :=
  leaves_combine .or formulas

mutual

@[simp] theorem leaves_map
    (image : Leaf → Image) :
    ∀ formula : Formula Leaf,
      (formula.map image).leaves = formula.leaves.map image
  | .leaf _ => rfl
  | .and members => leavesOf_mapAll image members
  | .or members => leavesOf_mapAll image members
  | .not inner => leaves_map image inner

@[simp] theorem leavesOf_mapAll
    (image : Leaf → Image) :
    ∀ formulas : List (Formula Leaf),
      leavesOf (mapAll image formulas) = (leavesOf formulas).map image
  | [] => rfl
  | member :: rest => by
      simp [mapAll, leavesOf, leaves_map image member,
        leavesOf_mapAll image rest]

end

/-! ## Images -/

theorem mapAll_eq_map
    (image : Leaf → Image)
    (formulas : List (Formula Leaf)) :
    mapAll image formulas = formulas.map (map image) := by
  induction formulas with
  | nil => rfl
  | cons formula rest inductionHypothesis =>
      rw [mapAll, inductionHypothesis, List.map_cons]

theorem map_compound
    (image : Leaf → Image)
    (combinator : Combinator)
    (members : List (Formula Leaf)) :
    (compound combinator members).map image =
      compound combinator (members.map (map image)) := by
  cases combinator <;> simp [compound, map, mapAll_eq_map]

theorem membersBy_map
    (image : Leaf → Image)
    (combinator : Combinator)
    (formula : Formula Leaf) :
    (formula.map image).membersBy combinator =
      (formula.membersBy combinator).map (map image) := by
  cases combinator <;> cases formula <;>
    simp [map, membersBy, conjuncts, disjuncts, mapAll_eq_map]

/-- The image of a combined formula is combined of the images. -/
theorem map_combine
    (image : Leaf → Image)
    (combinator : Combinator)
    (formulas : List (Formula Leaf)) :
    (combine combinator formulas).map image =
      combine combinator (formulas.map (map image)) := by
  rw [combine_eq_compound, combine_eq_compound, map_compound, List.map_flatMap,
    List.flatMap_map]
  simp only [membersBy_map]

theorem map_conjunction
    (image : Leaf → Image)
    (formulas : List (Formula Leaf)) :
    (conjunction formulas).map image =
      conjunction (formulas.map (map image)) :=
  map_combine image .and formulas

theorem map_disjunction
    (image : Leaf → Image)
    (formulas : List (Formula Leaf)) :
    (disjunction formulas).map image =
      disjunction (formulas.map (map image)) :=
  map_combine image .or formulas

@[simp] theorem leavesOf_map
    (image : Leaf → Image)
    (formulas : List (Formula Leaf)) :
    leavesOf (formulas.map (map image)) = (leavesOf formulas).map image := by
  rw [← mapAll_eq_map, leavesOf_mapAll]

/-! ## Truth by position -/

theorem evalFrom_compound
    (truth : Nat → Bool)
    (start : Nat)
    (combinator : Combinator)
    (members : List (Formula Leaf)) :
    (compound combinator members).evalFrom truth start =
      combinedFrom combinator truth start members := by
  cases combinator <;> rfl

theorem combinedFrom_nil
    (combinator : Combinator)
    (truth : Nat → Bool)
    (start : Nat) :
    combinedFrom combinator truth start ([] : List (Formula Leaf)) =
      combinator.neutral := by
  cases combinator <;> rfl

theorem combinedFrom_cons
    (combinator : Combinator)
    (truth : Nat → Bool)
    (start : Nat)
    (member : Formula Leaf)
    (rest : List (Formula Leaf)) :
    combinedFrom combinator truth start (member :: rest) =
      combinator.apply (member.evalFrom truth start)
        (combinedFrom combinator truth (start + member.leaves.length) rest) := by
  cases combinator <;> rfl

theorem combinedFrom_append
    (combinator : Combinator)
    (truth : Nat → Bool)
    (start : Nat)
    (front back : List (Formula Leaf)) :
    combinedFrom combinator truth start (front ++ back) =
      combinator.apply (combinedFrom combinator truth start front)
        (combinedFrom combinator truth (start + (leavesOf front).length) back) := by
  induction front generalizing start with
  | nil => simp [combinedFrom_nil, leavesOf]
  | cons member rest inductionHypothesis =>
      simp [combinedFrom_cons, leavesOf, inductionHypothesis, Combinator.apply_assoc,
        Nat.add_assoc]

theorem combinedFrom_membersBy
    (combinator : Combinator)
    (truth : Nat → Bool)
    (start : Nat)
    (formula : Formula Leaf) :
    combinedFrom combinator truth start (formula.membersBy combinator) =
      formula.evalFrom truth start := by
  rcases membersBy_cases combinator formula with ⟨members, rfl, members_eq⟩ | ⟨_, members_eq⟩
  · rw [members_eq, evalFrom_compound]
  · simp [members_eq, combinedFrom_cons, combinedFrom_nil]

/-- A combined formula has the truth value of its formulas under the combinator. -/
theorem evalFrom_combine
    (combinator : Combinator)
    (truth : Nat → Bool)
    (start : Nat)
    (formulas : List (Formula Leaf)) :
    (combine combinator formulas).evalFrom truth start =
      combinedFrom combinator truth start formulas := by
  rw [combine_eq_compound, evalFrom_compound]
  induction formulas generalizing start with
  | nil => rfl
  | cons formula rest inductionHypothesis =>
      rw [List.flatMap_cons, combinedFrom_append, combinedFrom_membersBy,
        leavesOf_membersBy, inductionHypothesis, combinedFrom_cons]

/-- A conjunction is true when all its formulas are. -/
theorem evalFrom_conjunction
    (truth : Nat → Bool)
    (start : Nat)
    (formulas : List (Formula Leaf)) :
    (conjunction formulas).evalFrom truth start =
      evalAllFrom truth start formulas :=
  evalFrom_combine .and truth start formulas

theorem evalAllFrom_append
    (truth : Nat → Bool)
    (start : Nat)
    (front back : List (Formula Leaf)) :
    evalAllFrom truth start (front ++ back) =
      (evalAllFrom truth start front
        && evalAllFrom truth (start + (leavesOf front).length) back) :=
  combinedFrom_append .and truth start front back

theorem evalAnyFrom_append
    (truth : Nat → Bool)
    (start : Nat)
    (front back : List (Formula Leaf)) :
    evalAnyFrom truth start (front ++ back) =
      (evalAnyFrom truth start front
        || evalAnyFrom truth (start + (leavesOf front).length) back) :=
  combinedFrom_append .or truth start front back

/-- Formulas that are changed one by one, each to one with as many leaves and the same
truth value, keep their truth value under a combinator. -/
theorem combinedFrom_map
    {truth : Nat → Bool}
    {change : Formula Leaf → Formula Image}
    {formulas : List (Formula Leaf)}
    (same : ∀ formula ∈ formulas,
      (change formula).leaves.length = formula.leaves.length ∧
      ∀ start, (change formula).evalFrom truth start = formula.evalFrom truth start)
    (combinator : Combinator)
    (start : Nat) :
    combinedFrom combinator truth start (formulas.map change) =
      combinedFrom combinator truth start formulas := by
  induction formulas generalizing start with
  | nil => simp [combinedFrom_nil]
  | cons formula rest inductionHypothesis =>
      obtain ⟨⟨length_eq, eval_eq⟩, others⟩ := List.forall_mem_cons.mp same
      rw [List.map_cons, combinedFrom_cons, combinedFrom_cons, length_eq, eval_eq,
        inductionHypothesis others]

/-- Truth by position does not depend on what the leaves are. -/
theorem evalFrom_map
    (truth : Nat → Bool)
    (image : Leaf → Image)
    (start : Nat)
    (formula : Formula Leaf) :
    (formula.map image).evalFrom truth start = formula.evalFrom truth start := by
  induction formula using memberInduction generalizing start with
  | leaf value => rfl
  | compound combinator members inductionHypothesis =>
      rw [map_compound, evalFrom_compound, evalFrom_compound]
      refine combinedFrom_map (fun member inMembers => ⟨?_, ?_⟩) combinator start
      · rw [leaves_map, List.length_map]
      · exact fun start => inductionHypothesis member inMembers start
  | not inner inductionHypothesis =>
      rw [map, evalFrom, evalFrom, inductionHypothesis]

/-- Formulas that each have the value that the positions of their leaves have have it
together, under every combinator. -/
theorem combinedFrom_of_constant
    {truth : Nat → Bool}
    {value : Bool}
    {members : List (Formula Leaf)}
    (nonempty : members ≠ [])
    (each : ∀ member ∈ members, ∀ start,
      (∀ position, start ≤ position →
        position < start + member.leaves.length → truth position = value) →
      member.evalFrom truth start = value)
    {start : Nat}
    (constant : ∀ position, start ≤ position →
      position < start + (leavesOf members).length →
      truth position = value)
    (combinator : Combinator) :
    combinedFrom combinator truth start members = value := by
  induction members generalizing start with
  | nil => exact absurd rfl nonempty
  | cons member rest inductionHypothesis =>
      simp only [leavesOf, List.length_append] at constant
      have first : member.evalFrom truth start = value :=
        each member (by simp) start fun position le lt =>
          constant position le (by omega)
      by_cases empty : rest = []
      · rw [combinedFrom_cons, first, empty, combinedFrom_nil, Combinator.apply_neutral]
      · rw [combinedFrom_cons, first, inductionHypothesis empty
            (fun other inRest => each other (by simp [inRest]))
            (fun position le lt => constant position (by omega) (by omega)),
          Combinator.apply_self]

/-! ## Proper and positive formulas -/

theorem proper_compound_iff
    (combinator : Combinator)
    {members : List (Formula Leaf)} :
    (compound combinator members).Proper ↔
      2 ≤ members.length ∧
        ∀ member ∈ members, member.combinesBy combinator = false ∧ member.Proper := by
  rw [forall₂_and]
  cases combinator with
  | and => exact ⟨fun | .and two_le notAnd proper => ⟨two_le, notAnd, proper⟩,
      fun ⟨two_le, notAnd, proper⟩ => .and two_le notAnd proper⟩
  | or => exact ⟨fun | .or two_le notOr proper => ⟨two_le, notOr, proper⟩,
      fun ⟨two_le, notOr, proper⟩ => .or two_le notOr proper⟩

theorem positive_compound_iff
    (combinator : Combinator)
    {members : List (Formula Leaf)} :
    (compound combinator members).Positive ↔ ∀ member ∈ members, member.Positive := by
  cases combinator with
  | and => exact ⟨fun | .and positive => positive, .and⟩
  | or => exact ⟨fun | .or positive => positive, .or⟩

/-- A proper formula without negation has the value that the positions of all its
leaves have. -/
theorem Proper.evalFrom_of_constant
    {truth : Nat → Bool}
    {value : Bool}
    {formula : Formula Leaf}
    (proper : formula.Proper)
    (positive : formula.Positive)
    {start : Nat}
    (constant : ∀ position, start ≤ position →
      position < start + formula.leaves.length → truth position = value) :
    formula.evalFrom truth start = value := by
  induction formula using memberInduction generalizing start with
  | leaf leafValue => exact constant start (by omega) (by simp [leaves])
  | compound combinator members inductionHypothesis =>
      obtain ⟨two_le, each⟩ := (proper_compound_iff combinator).mp proper
      have positive := (positive_compound_iff combinator).mp positive
      rw [leaves_compound] at constant
      rw [evalFrom_compound]
      refine combinedFrom_of_constant ?_ ?_ constant combinator
      · exact List.ne_nil_of_length_pos (by omega)
      · intro member inMembers start constant
        exact inductionHypothesis member inMembers (each member inMembers).2
          (positive member inMembers) constant
  | not _ _ => cases positive

theorem Proper.membersBy_ne_nil
    {formula : Formula Leaf}
    (proper : formula.Proper)
    (combinator : Combinator) :
    formula.membersBy combinator ≠ [] := by
  rcases membersBy_cases combinator formula with ⟨members, rfl, members_eq⟩ | ⟨_, members_eq⟩
  · have two_le := ((proper_compound_iff combinator).mp proper).1
    rw [members_eq]
    exact List.ne_nil_of_length_pos (by omega)
  · simp [members_eq]

/-- The members of a proper formula under a combinator are proper and no compounds by
it. -/
theorem Proper.of_mem_membersBy
    {combinator : Combinator}
    {formula member : Formula Leaf}
    (proper : formula.Proper)
    (inMembers : member ∈ formula.membersBy combinator) :
    member.combinesBy combinator = false ∧ member.Proper :=
  forall_mem_membersBy
    (fun whole => ((proper_compound_iff combinator).mp (whole ▸ proper)).2)
    (fun different => ⟨different, proper⟩) member inMembers

/-- Lists that each have an element have as many elements together as there are
lists. -/
theorem length_le_length_flatMap
    {Part Piece : Type}
    {parts : List Part}
    {pieces : Part → List Piece}
    (nonempty : ∀ part ∈ parts, pieces part ≠ []) :
    parts.length ≤ (parts.flatMap pieces).length := by
  induction parts with
  | nil => simp
  | cons part rest inductionHypothesis =>
      have first := List.length_pos_iff.mpr (nonempty part (by simp))
      have others := inductionHypothesis fun other inRest =>
        nonempty other (by simp [inRest])
      simp only [List.flatMap_cons, List.length_append, List.length_cons]
      omega

/-- The members of proper formulas under a combinator are proper and no compounds by
it. -/
theorem Proper.of_mem_flatMap_membersBy
    {combinator : Combinator}
    {formulas : List (Formula Leaf)}
    (proper : ∀ formula ∈ formulas, formula.Proper)
    {member : Formula Leaf}
    (inMembers : member ∈ formulas.flatMap (membersBy combinator)) :
    member.combinesBy combinator = false ∧ member.Proper := by
  obtain ⟨formula, inFormulas, inMembers⟩ := List.mem_flatMap.mp inMembers
  exact (proper formula inFormulas).of_mem_membersBy inMembers

/-- Two or more proper formulas are combined to a proper one. -/
theorem Proper.combine
    {formulas : List (Formula Leaf)}
    (two_le : 2 ≤ formulas.length)
    (proper : ∀ formula ∈ formulas, formula.Proper)
    (combinator : Combinator) :
    (Formula.combine combinator formulas).Proper := by
  have enough := length_le_length_flatMap fun formula inFormulas =>
    (proper formula inFormulas).membersBy_ne_nil combinator
  rw [combine_eq_compound, proper_compound_iff]
  exact ⟨Nat.le_trans two_le enough, fun _ => of_mem_flatMap_membersBy proper⟩

/-- The members of formulas without negation under a combinator have none. -/
theorem Positive.of_mem_flatMap_membersBy
    {combinator : Combinator}
    {formulas : List (Formula Leaf)}
    (positive : ∀ formula ∈ formulas, formula.Positive)
    {member : Formula Leaf}
    (inMembers : member ∈ formulas.flatMap (membersBy combinator)) :
    member.Positive := by
  obtain ⟨formula, inFormulas, inMembers⟩ := List.mem_flatMap.mp inMembers
  have whole := positive formula inFormulas
  exact forall_mem_membersBy
    (fun eq => (positive_compound_iff combinator).mp (eq ▸ whole))
    (fun _ => whole) member inMembers

/-- Formulas without negation are combined to one without. -/
theorem Positive.combine
    {formulas : List (Formula Leaf)}
    (positive : ∀ formula ∈ formulas, formula.Positive)
    (combinator : Combinator) :
    (Formula.combine combinator formulas).Positive := by
  rw [combine_eq_compound, positive_compound_iff]
  exact fun _ => of_mem_flatMap_membersBy positive

end Formula
end DomainSql
