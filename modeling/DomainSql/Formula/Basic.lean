/-!
# Boolean formulas

A formula is built from leaves by conjunctions and disjunctions of any number of
members and by negation. The smart constructors `conjunction` and `disjunction`
take the members of a member of their own kind in its place, so that formulas
built with them are flat: no conjunction is a member of a conjunction, and no
disjunction of a disjunction.
-/

namespace DomainSql

/-- A Boolean formula over leaves. -/
inductive Formula (Leaf : Type)
  | leaf (value : Leaf)
  | and (members : List (Formula Leaf))
  | or (members : List (Formula Leaf))
  | not (inner : Formula Leaf)

namespace Formula

variable {Leaf Image : Type}

/-- The members of a conjunction, or the formula itself. -/
def conjuncts : Formula Leaf → List (Formula Leaf)
  | .and members => members
  | other => [other]

/-- The members of a disjunction, or the formula itself. -/
def disjuncts : Formula Leaf → List (Formula Leaf)
  | .or members => members
  | other => [other]

/-- The conjunction of formulas, with the members of conjunctions in their
place. -/
def conjunction (formulas : List (Formula Leaf)) : Formula Leaf :=
  .and (formulas.flatMap conjuncts)

/-- The disjunction of formulas, with the members of disjunctions in their
place. -/
def disjunction (formulas : List (Formula Leaf)) : Formula Leaf :=
  .or (formulas.flatMap disjuncts)

/-- Whether a formula is a conjunction. -/
def isAnd : Formula Leaf → Bool
  | .and _ => true
  | _ => false

/-- Whether a formula is a disjunction. -/
def isOr : Formula Leaf → Bool
  | .or _ => true
  | _ => false

mutual

/-- The leaves from left to right. -/
def leaves : Formula Leaf → List Leaf
  | .leaf value => [value]
  | .and members => leavesOf members
  | .or members => leavesOf members
  | .not inner => inner.leaves

/-- The leaves of formulas from left to right. -/
def leavesOf : List (Formula Leaf) → List Leaf
  | [] => []
  | member :: rest => member.leaves ++ leavesOf rest

end

mutual

/-- Whether no conjunction has a conjunction for a member, and no disjunction a
disjunction. -/
def isFlat : Formula Leaf → Bool
  | .leaf _ => true
  | .and members => members.all (!·.isAnd) && areFlat members
  | .or members => members.all (!·.isOr) && areFlat members
  | .not inner => inner.isFlat

/-- Whether each of the formulas is flat. -/
def areFlat : List (Formula Leaf) → Bool
  | [] => true
  | member :: rest => member.isFlat && areFlat rest

end

mutual

/-- The truth value of a formula under truth values of its leaves. The empty
conjunction is true and the empty disjunction false. -/
def eval (truth : Leaf → Bool) : Formula Leaf → Bool
  | .leaf value => truth value
  | .and members => evalAll truth members
  | .or members => evalAny truth members
  | .not inner => !inner.eval truth

/-- Whether all of the formulas are true. -/
def evalAll (truth : Leaf → Bool) : List (Formula Leaf) → Bool
  | [] => true
  | member :: rest => member.eval truth && evalAll truth rest

/-- Whether one of the formulas is true. -/
def evalAny (truth : Leaf → Bool) : List (Formula Leaf) → Bool
  | [] => false
  | member :: rest => member.eval truth || evalAny truth rest

end

mutual

/-- Build a formula again from its leaves through the smart constructors. -/
def rebuild : Formula Leaf → Formula Leaf
  | .leaf value => .leaf value
  | .and members => conjunction (rebuildAll members)
  | .or members => disjunction (rebuildAll members)
  | .not inner => .not inner.rebuild

/-- Build each of the formulas again. -/
def rebuildAll : List (Formula Leaf) → List (Formula Leaf)
  | [] => []
  | member :: rest => member.rebuild :: rebuildAll rest

end

mutual

/-- Replace every leaf by the result of an action on it, from left to right. An
action that fails ends the traversal. -/
def mapM
    {Action : Type → Type}
    [Monad Action]
    (act : Leaf → Action Image) :
    Formula Leaf → Action (Formula Image)
  | .leaf value => do
      let image ← act value
      pure (.leaf image)
  | .and members => do
      let images ← mapAllM act members
      pure (.and images)
  | .or members => do
      let images ← mapAllM act members
      pure (.or images)
  | .not inner => do
      let image ← inner.mapM act
      pure (.not image)

/-- Replace every leaf of each of the formulas, from left to right. -/
def mapAllM
    {Action : Type → Type}
    [Monad Action]
    (act : Leaf → Action Image) :
    List (Formula Leaf) → Action (List (Formula Image))
  | [] => pure []
  | member :: rest => do
      let image ← member.mapM act
      let images ← mapAllM act rest
      pure (image :: images)

end

@[simp] theorem conjuncts_and (members : List (Formula Leaf)) :
    (and members).conjuncts = members := rfl

@[simp] theorem disjuncts_or (members : List (Formula Leaf)) :
    (or members).disjuncts = members := rfl

@[simp] theorem leavesOf_append (front back : List (Formula Leaf)) :
    leavesOf (front ++ back) = leavesOf front ++ leavesOf back := by
  induction front with
  | nil => rfl
  | cons member rest inductionHypothesis =>
      simp [leavesOf, inductionHypothesis]

end Formula
end DomainSql
