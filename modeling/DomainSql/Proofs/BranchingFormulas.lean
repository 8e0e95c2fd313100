import DomainSql.Proofs.FormulaShape

/-!
# Branching and flat formulas

A formula branches when each of its conjunctions and disjunctions has two members at
least. It is proper when it branches and is flat. The smart constructors leave the
members of a flat formula where they are, so that a flat formula is what it is built
again to.
-/

namespace DomainSql
namespace Formula

variable {Leaf : Type}

/-- Every conjunction and disjunction has two members at least. -/
inductive Branching : Formula Leaf → Prop
  | leaf (value : Leaf) : Branching (.leaf value)
  | and
      {members : List (Formula Leaf)}
      (two_le : 2 ≤ members.length)
      (branching : ∀ member ∈ members, Branching member) :
      Branching (.and members)
  | or
      {members : List (Formula Leaf)}
      (two_le : 2 ≤ members.length)
      (branching : ∀ member ∈ members, Branching member) :
      Branching (.or members)
  | not
      {inner : Formula Leaf}
      (branching : Branching inner) :
      Branching (.not inner)

theorem branching_compound_iff
    (combinator : Combinator)
    {members : List (Formula Leaf)} :
    (compound combinator members).Branching ↔
      2 ≤ members.length ∧ ∀ member ∈ members, member.Branching := by
  cases combinator with
  | and => exact ⟨fun | .and two_le branching => ⟨two_le, branching⟩,
      fun ⟨two_le, branching⟩ => .and two_le branching⟩
  | or => exact ⟨fun | .or two_le branching => ⟨two_le, branching⟩,
      fun ⟨two_le, branching⟩ => .or two_le branching⟩

/-! ## Flatness -/

theorem areFlat_iff {members : List (Formula Leaf)} :
    areFlat members = true ↔ ∀ member ∈ members, member.isFlat = true := by
  induction members with
  | nil => simp [areFlat]
  | cons member rest inductionHypothesis => simp [areFlat, inductionHypothesis]

theorem isFlat_compound_iff
    (combinator : Combinator)
    {members : List (Formula Leaf)} :
    (compound combinator members).isFlat = true ↔
      ∀ member ∈ members, member.combinesBy combinator = false ∧ member.isFlat = true := by
  cases combinator <;>
    simp [compound, combinesBy, isFlat, areFlat_iff, forall_and]

/-- A formula is proper when it branches and is flat. -/
theorem proper_iff {formula : Formula Leaf} :
    formula.Proper ↔ formula.Branching ∧ formula.isFlat = true := by
  induction formula using memberInduction with
  | leaf value => exact ⟨fun _ => ⟨.leaf value, rfl⟩, fun _ => .leaf value⟩
  | compound combinator members inductionHypothesis =>
      rw [proper_compound_iff, branching_compound_iff, isFlat_compound_iff]
      constructor
      · rintro ⟨two_le, each⟩
        have both := fun member inMembers =>
          (inductionHypothesis member inMembers).mp (each member inMembers).2
        exact ⟨⟨two_le, fun member inMembers => (both member inMembers).1⟩,
          fun member inMembers => ⟨(each member inMembers).1, (both member inMembers).2⟩⟩
      · rintro ⟨⟨two_le, branching⟩, flat⟩
        refine ⟨two_le, fun member inMembers => ⟨(flat member inMembers).1, ?_⟩⟩
        exact (inductionHypothesis member inMembers).mpr
          ⟨branching member inMembers, (flat member inMembers).2⟩
  | not inner inductionHypothesis =>
      constructor
      · rintro (_ | _ | _ | ⟨proper⟩)
        obtain ⟨branching, flat⟩ := inductionHypothesis.mp proper
        exact ⟨.not branching, flat⟩
      · rintro ⟨_ | _ | _ | ⟨branching⟩, flat⟩
        exact .not (inductionHypothesis.mpr ⟨branching, flat⟩)

/-! ## Building again -/

theorem rebuildAll_eq_map (formulas : List (Formula Leaf)) :
    rebuildAll formulas = formulas.map rebuild := by
  induction formulas with
  | nil => rfl
  | cons formula rest inductionHypothesis =>
      rw [rebuildAll, inductionHypothesis, List.map_cons]

theorem rebuild_compound
    (combinator : Combinator)
    (members : List (Formula Leaf)) :
    (compound combinator members).rebuild = combine combinator (members.map rebuild) := by
  rw [← rebuildAll_eq_map]
  cases combinator <;> rfl

/-- Members that are no compounds by the combinator stay in their place. -/
theorem combine_of_not_combinesBy
    {combinator : Combinator}
    {members : List (Formula Leaf)}
    (different : ∀ member ∈ members, member.combinesBy combinator = false) :
    combine combinator members = compound combinator members := by
  have itself : ∀ member ∈ members, member.membersBy combinator = [member] := by
    intro member inMembers
    rcases membersBy_cases combinator member with ⟨_, rfl, _⟩ | ⟨_, members_eq⟩
    · have same := different _ inMembers
      cases combinator <;> cases same
    · exact members_eq
  rw [combine_eq_compound, List.flatMap_congr itself, List.flatMap_singleton']

/-- A flat formula is built again to itself. -/
theorem rebuild_of_isFlat
    {formula : Formula Leaf}
    (flat : formula.isFlat = true) :
    formula.rebuild = formula := by
  induction formula using memberInduction with
  | leaf value => rfl
  | compound combinator members inductionHypothesis =>
      have each := (isFlat_compound_iff combinator).mp flat
      have members_eq : members.map rebuild = members :=
        (List.map_congr_left fun member inMembers =>
          inductionHypothesis member inMembers (each member inMembers).2).trans
            members.map_id'
      rw [rebuild_compound, members_eq, combine_of_not_combinesBy fun member inMembers =>
        (each member inMembers).1]
  | not inner inductionHypothesis => rw [rebuild, inductionHypothesis flat]

end Formula
end DomainSql
