import DomainSql.Proofs.RuleTreeOperands

/-!
# From domains to rule trees and back

The domain of a rule tree writes an "and" as the sequence of its members. Below an
"or" this loses the bracket: the markers in front take the first operands of the
sequence, and the others become conditions of their own. So a domain keeps its
meaning on the way through its rule tree exactly when its formula has no
conjunction below a disjunction.
-/

namespace DomainSql

namespace Formula

open RuleTree Expression

/-! ## The tree of a formula -/

theorem filled_ruleTree
    {formula : Formula Condition}
    (proper : formula.Proper)
    (positive : formula.Positive) :
    formula.ruleTree.Filled := by
  induction proper with
  | leaf condition => exact .rule _
  | and two_le _ _ inductionHypothesis =>
      cases positive with
      | and positive =>
          rw [ruleTree, ruleTrees_eq_map]
          refine .query ?_ ?_
          · rw [Ne, List.map_eq_nil_iff]
            rintro rfl
            simp at two_le
          · simpa using fun member inMembers =>
              inductionHypothesis member inMembers (positive member inMembers)
  | or two_le _ _ inductionHypothesis =>
      cases positive with
      | or positive =>
          rw [ruleTree, ruleTrees_eq_map]
          refine .query ?_ ?_
          · rw [Ne, List.map_eq_nil_iff]
            rintro rfl
            simp at two_le
          · simpa using fun member inMembers =>
              inductionHypothesis member inMembers (positive member inMembers)
  | not _ _ => cases positive

mutual

/-- The rules of the tree of a formula are its leaves, in the words of rules. -/
theorem rules_ruleTree :
    ∀ formula : Formula Condition,
      formula.ruleTree.rules = formula.leaves.map Rule.ofCondition
  | .leaf _ => rfl
  | .and members => rulesOf_ruleTrees members
  | .or members => rulesOf_ruleTrees members
  | .not inner => rules_ruleTree inner

theorem rulesOf_ruleTrees :
    ∀ formulas : List (Formula Condition),
      rulesOf (ruleTrees formulas) =
        (leavesOf formulas).map Rule.ofCondition
  | [] => rfl
  | formula :: rest => by
      rw [ruleTrees, rulesOf, leavesOf, List.map_append,
        rules_ruleTree formula, rulesOf_ruleTrees rest]

end

/-- The leaves of the operands of trees are those of the formulas of the trees,
reworded. -/
theorem leavesOf_operandsOf_ruleTrees (formulas : List (Formula Condition)) :
    leavesOf ((operandsOf (ruleTrees formulas)).map Expression.formula) =
      (leavesOf formulas).map Condition.reworded := by
  rw [leavesOf_operandsOf, rulesOf_ruleTrees, List.map_map]
  rfl

/-- The domain of a root tree is that of the trees of its members, one after the
other. -/
theorem toDomain_rootTree_eq_toDomainOf (members : List (Formula Condition)) :
    (Formula.and members).rootTree.toDomain = toDomainOf (ruleTrees members) := by
  match members with
  | [.or nested] => simp [rootTree, toDomain, toDomainOf, ruleTrees, ruleTree]
  | [] => rfl
  | [.leaf _] => rfl
  | [.and _] => rfl
  | [.not _] => rfl
  | first :: _ :: _ => cases first <;> rfl

/-- The domain of a root tree is written by the operands of its members. -/
theorem toDomain_rootTree
    {members : List (Formula Condition)}
    (proper : ∀ member ∈ members, member.Proper)
    (positive : ∀ member ∈ members, member.Positive) :
    (Formula.and members).rootTree.toDomain =
      Expression.write (operandsOf (ruleTrees members)) := by
  rw [toDomain_rootTree_eq_toDomainOf]
  apply toDomainOf_eq_write
  rw [ruleTrees_eq_map]
  simpa using fun member inMembers =>
    (filled_ruleTree (proper member inMembers)
      (positive member inMembers)).toDomain_eq_write

/-! ## Clauses come back as they are -/

/-- The members of a clause are leaves over some values. -/
theorem exists_eq_map_leaf
    {members : List (Formula Condition)}
    (leaf_of_mem : ∀ member ∈ members, ∃ value, member = .leaf value) :
    ∃ values : List Condition, members = values.map .leaf := by
  induction members with
  | nil => exact ⟨[], rfl⟩
  | cons member rest inductionHypothesis =>
      simp only [List.mem_cons, forall_eq_or_imp] at leaf_of_mem
      obtain ⟨⟨value, rfl⟩, restLeaf⟩ := leaf_of_mem
      obtain ⟨values, rfl⟩ := inductionHypothesis restLeaf
      exact ⟨value :: values, rfl⟩

/-- The operands of leaves are the leaves, reworded. -/
theorem operandsOf_ruleTrees_map_leaf (values : List Condition) :
    operandsOf (ruleTrees (values.map .leaf)) =
      values.map fun value => .leaf value.reworded := by
  induction values with
  | nil => rfl
  | cons value rest inductionHypothesis =>
      rw [List.map_cons, ruleTrees, operandsOf, inductionHypothesis]
      rfl

theorem mapAll_map_leaf (values : List Condition) :
    mapAll Condition.reworded (values.map .leaf) =
      values.map fun value => .leaf value.reworded := by
  induction values with
  | nil => rfl
  | cons value rest inductionHypothesis =>
      rw [List.map_cons, mapAll, inductionHypothesis]
      rfl

/-- The operand of the tree of a clause is the clause, reworded. -/
theorem operands_ruleTree_of_isClause
    {clause : Formula Condition}
    (proper : clause.Proper)
    (isClause : clause.IsClause) :
    clause.ruleTree.operands.map Expression.formula =
      [clause.map Condition.reworded] := by
  cases proper with
  | leaf condition => rfl
  | and _ _ _ => exact isClause.elim
  | not _ => exact isClause.elim
  | or two_le _ _ =>
      obtain ⟨values, rfl⟩ := exists_eq_map_leaf isClause
      match values with
      | [] => simp at two_le
      | [_] => simp at two_le
      | first :: second :: rest =>
          obtain ⟨whole, found, formula_eq⟩ := orFirst_all
            (.leaf first.reworded)
            ((second :: rest).map fun value => .leaf value.reworded)
            (by simp)
          rw [ruleTree, operands, operandsOf_ruleTrees_map_leaf, map,
            mapAll_map_leaf, ruleTrees_eq_map]
          simp only [List.length_map, List.map_cons, List.length_cons,
            Nat.add_sub_cancel] at found ⊢
          rw [found, List.map_singleton, formula_eq]
          simp only [disjunction, Expression.formula, List.map_cons, List.map_map,
            List.flatMap_cons, List.flatMap_map]
          rw [List.map_eq_flatMap]
          rfl

/-- The operands of the trees of clauses are the clauses, reworded. -/
theorem operandsOf_ruleTrees_of_isClause
    {clauses : List (Formula Condition)}
    (proper : ∀ clause ∈ clauses, clause.Proper)
    (isClause : ∀ clause ∈ clauses, clause.IsClause) :
    (operandsOf (ruleTrees clauses)).map Expression.formula =
      clauses.map (map Condition.reworded) := by
  induction clauses with
  | nil => rfl
  | cons clause rest inductionHypothesis =>
      simp only [List.mem_cons, forall_eq_or_imp] at proper isClause
      rw [ruleTrees, operandsOf, List.map_append, List.map_cons,
        operands_ruleTree_of_isClause proper.1 isClause.1,
        inductionHypothesis proper.2 isClause.2, List.singleton_append]

/-! ## Conjunctions below disjunctions are lost -/

/-- A disjunction that is no clause has more operands than members. -/
theorem length_lt_length_operandsOf_ruleTrees
    {members : List (Formula Condition)}
    (proper : (or members).Proper)
    (positive : (or members).Positive)
    (notClause : ¬(or members).IsClause) :
    members.length < (operandsOf (ruleTrees members)).length := by
  cases proper with
  | or _ notOr proper =>
      cases positive with
      | or positive =>
          have nonempty : ∀ tree ∈ ruleTrees members, tree.operands ≠ [] := by
            rw [ruleTrees_eq_map]
            simpa using fun member inMembers =>
              (filled_ruleTree (proper member inMembers)
                (positive member inMembers)).operands_ne_nil
          simp only [IsClause, not_forall] at notClause
          obtain ⟨member, inMembers, notLeaf⟩ := notClause
          have wide : 2 ≤ member.ruleTree.operands.length := by
            have different := notOr member inMembers
            have memberPositive := positive member inMembers
            cases proper member inMembers with
            | leaf value => exact absurd ⟨value, rfl⟩ notLeaf
            | or _ _ _ => simp [isOr] at different
            | not _ => cases memberPositive
            | @and nested two_le _ nestedProper =>
                cases memberPositive with
                | and nestedPositive =>
                    have filled : ∀ tree ∈ ruleTrees nested,
                        tree.operands ≠ [] := by
                      rw [ruleTrees_eq_map]
                      simpa using fun inner inNested =>
                        (filled_ruleTree (nestedProper inner inNested)
                          (nestedPositive inner inNested)).operands_ne_nil
                    have enough := length_le_length_operandsOf filled
                    rw [ruleTrees_eq_map, List.length_map] at enough
                    rw [ruleTree, operands, ruleTrees_eq_map]
                    omega
          have inTrees : member.ruleTree ∈ ruleTrees members := by
            rw [ruleTrees_eq_map]
            exact List.mem_map_of_mem inMembers
          have longer := length_lt_length_operandsOf nonempty inTrees wide
          simpa [ruleTrees_eq_map] using longer

/-- What follows the last member of a disjunction with more operands than members
still ends with the last operand of that member. -/
theorem operands_or_append_singleton
    {init : List (Formula Condition)}
    {last : Formula Condition}
    (filled : last.ruleTree.Filled)
    (longer : (init ++ [last]).length <
      (operandsOf (ruleTrees (init ++ [last]))).length) :
    ∃ front kept final,
      (or (init ++ [last])).ruleTree.operands = front ++ [final] ∧
      last.ruleTree.operands = kept ++ [final] ∧
      leavesOf (front.map Expression.formula) =
        (leavesOf init).map Condition.reworded
          ++ leavesOf (kept.map Expression.formula) := by
  obtain ⟨kept, final, lastOperands⟩ :
      ∃ kept final, last.ruleTree.operands = kept ++ [final] := by
    refine ⟨last.ruleTree.operands.dropLast,
      last.ruleTree.operands.getLast filled.operands_ne_nil, ?_⟩
    exact (List.dropLast_concat_getLast _).symm
  have splitOperands : operandsOf (ruleTrees (init ++ [last])) =
      (operandsOf (ruleTrees init) ++ kept) ++ [final] := by
    simp [ruleTrees_eq_map, operandsOf, lastOperands]
  have markers : (ruleTrees (init ++ [last])).length - 1 <
      (operandsOf (ruleTrees init) ++ kept).length := by
    rw [splitOperands] at longer
    simp only [List.length_append, List.length_singleton] at longer ⊢
    simp only [ruleTrees_eq_map, List.length_map, List.length_append,
      List.length_singleton]
    rw [ruleTrees_eq_map] at longer
    omega
  refine ⟨orFirst ((ruleTrees (init ++ [last])).length - 1)
      (operandsOf (ruleTrees init) ++ kept), kept, final, ?_, lastOperands, ?_⟩
  · rw [ruleTree, operands, splitOperands, orFirst_append markers]
  · rw [leavesOf_orFirst, List.map_append, leavesOf_append,
      leavesOf_operandsOf_ruleTrees]

/-- The truth values that are false at `length` positions from `start` on. -/
def falseOn
    (start length position : Nat) : Bool :=
  position < start || start + length ≤ position

/-- Formulas whose positions are all true are all true. -/
theorem evalAllFrom_of_true
    {truth : Nat → Bool}
    {members : List (Formula Leaf)}
    (proper : ∀ member ∈ members, member.Proper)
    (positive : ∀ member ∈ members, member.Positive)
    {start : Nat}
    (constant : ∀ position, start ≤ position →
      position < start + (leavesOf members).length → truth position = true) :
    evalAllFrom truth start members = true := by
  by_cases empty : members = []
  · rw [empty, evalAllFrom]
  · refine combinedFrom_of_constant empty ?_ constant .and
    intro member inMembers _ constant
    exact (proper member inMembers).evalFrom_of_constant
      (positive member inMembers) constant

/-- A conjunction keeps its truth when only the last disjunct of one of its members
fails. -/
theorem evalAllFrom_falseOn
    {front init back : List (Formula Leaf)}
    {last : Formula Leaf}
    (proper : ∀ member ∈ front ++ or (init ++ [last]) :: back, member.Proper)
    (positive : ∀ member ∈ front ++ or (init ++ [last]) :: back,
      member.Positive) :
    evalAllFrom
      (falseOn ((leavesOf front).length + (leavesOf init).length)
        last.leaves.length) 0
      (front ++ or (init ++ [last]) :: back) = true := by
  have initNonempty : init ≠ [] := by
    have properOr := proper (or (init ++ [last])) (by simp)
    cases properOr with
    | or two_le _ _ =>
        rintro rfl
        simp at two_le
  have properOr := proper (or (init ++ [last])) (by simp)
  have positiveOr := positive (or (init ++ [last])) (by simp)
  have initTrue : evalAnyFrom
      (falseOn ((leavesOf front).length + (leavesOf init).length)
        last.leaves.length) (leavesOf front).length init = true := by
    cases properOr with
    | or _ _ properMembers =>
        cases positiveOr with
        | or positiveMembers =>
            refine combinedFrom_of_constant initNonempty ?_ ?_ .or
            · intro member inInit _ constant
              exact (properMembers member (by simp [inInit])).evalFrom_of_constant
                (positiveMembers member (by simp [inInit])) constant
            · intro position _ lt
              simp [falseOn, lt]
  rw [evalAllFrom_append, evalAllFrom, evalFrom, evalAnyFrom_append]
  simp only [Nat.zero_add, initTrue, Bool.true_or, Bool.true_and,
    Bool.and_eq_true]
  constructor
  · refine evalAllFrom_of_true (fun member inFront =>
      proper member (by simp [inFront])) (fun member inFront =>
      positive member (by simp [inFront])) ?_
    intro position _ lt
    simp only [falseOn, Bool.or_eq_true, decide_eq_true_eq]
    omega
  · refine evalAllFrom_of_true (fun member inBack =>
      proper member (by simp [inBack])) (fun member inBack =>
      positive member (by simp [inBack])) ?_
    intro position le _
    simp only [leaves, leavesOf_append, leavesOf, List.length_append,
      List.length_nil] at le
    simp only [falseOn, Bool.or_eq_true, decide_eq_true_eq]
    omega

/-- The domain of a tree fails when the last disjunct of a disjunction that is no
clause fails, since an operand of this disjunct stands by itself in it. -/
theorem evalAllFrom_operandsOf_falseOn
    {front init back : List (Formula Condition)}
    {last : Formula Condition}
    (proper : (or (init ++ [last])).Proper)
    (positive : (or (init ++ [last])).Positive)
    (notClause : ¬(or (init ++ [last])).IsClause) :
    evalAllFrom
      (falseOn ((leavesOf front).length + (leavesOf init).length)
        last.leaves.length) 0
      ((operandsOf (ruleTrees (front ++ or (init ++ [last]) :: back))).map
        Expression.formula) = false := by
  have longer := length_lt_length_operandsOf_ruleTrees proper positive notClause
  have lastFilled : last.ruleTree.Filled := by
    cases proper with
    | or _ _ proper =>
        cases positive with
        | or positive =>
            exact filled_ruleTree (proper last (by simp))
              (positive last (by simp))
  obtain ⟨before, kept, final, operandsEq, lastOperands, beforeLeaves⟩ :=
    operands_or_append_singleton lastFilled longer
  have finalFree : final.NegationFree :=
    negationFree_of_mem_operands last.ruleTree final (by simp [lastOperands])
  -- The leaves of the last operand are the last leaves of the last disjunct.
  have lastLeaves : last.leaves.length =
      (leavesOf (kept.map Expression.formula)).length
        + final.formula.leaves.length := by
    have leavesEq := congrArg List.length (leavesOf_operands last.ruleTree)
    rw [rules_ruleTree, lastOperands] at leavesEq
    simpa [leavesOf] using leavesEq.symm
  have finalFalse : final.formula.evalFrom
      (falseOn ((leavesOf front).length + (leavesOf init).length)
        last.leaves.length)
      ((leavesOf front).length + (leavesOf init).length
        + (leavesOf (kept.map Expression.formula)).length) = false := by
    refine final.proper_formula.evalFrom_of_constant
      finalFree.positive_formula ?_
    intro position le lt
    simp only [falseOn, Bool.or_eq_false_iff, decide_eq_false_iff_not]
    omega
  have split : operandsOf (ruleTrees (front ++ or (init ++ [last]) :: back)) =
      operandsOf (ruleTrees front) ++ (before ++ final
        :: operandsOf (ruleTrees back)) := by
    simp only [ruleTrees_eq_map, List.map_append, List.map_cons,
      operandsOf_append, operandsOf, operandsEq]
    simp
  rw [split]
  simp only [List.map_append, List.map_cons, evalAllFrom_append, evalAllFrom,
    leavesOf_operandsOf_ruleTrees, beforeLeaves, List.length_append,
    List.length_map, Nat.zero_add, ← Nat.add_assoc, finalFalse]
  simp

/-- A member of a flat conjunction that is no clause is a disjunction. -/
theorem exists_eq_or_of_not_isClause
    {member : Formula Condition}
    (proper : member.Proper)
    (positive : member.Positive)
    (notAnd : member.isAnd = false)
    (notClause : ¬member.IsClause) :
    ∃ init last, member = or (init ++ [last]) := by
  cases positive with
  | leaf value => exact absurd trivial notClause
  | and _ => simp [isAnd] at notAnd
  | @or disjuncts _ =>
      cases proper with
      | or two_le _ _ =>
          have nonempty : disjuncts ≠ [] := by
            rintro rfl
            simp at two_le
          exact ⟨disjuncts.dropLast, disjuncts.getLast nonempty,
            by rw [List.dropLast_concat_getLast]⟩

/-- The operands of the trees of formulas are true when the formulas are, whatever the
positions hold, exactly when each of the formulas is a clause. -/
theorem evalAllFrom_operandsOf_eq_iff
    {members : List (Formula Condition)}
    (proper : ∀ member ∈ members, member.Proper)
    (notAnd : ∀ member ∈ members, member.isAnd = false)
    (positive : ∀ member ∈ members, member.Positive) :
    (∀ truth, evalAllFrom truth 0
        ((operandsOf (ruleTrees members)).map Expression.formula) =
      evalAllFrom truth 0 members) ↔
    ∀ member ∈ members, member.IsClause := by
  constructor
  · intro same member inMembers
    by_contra notClause
    obtain ⟨init, last, rfl⟩ := exists_eq_or_of_not_isClause
      (proper member inMembers) (positive member inMembers)
      (notAnd member inMembers) notClause
    obtain ⟨front, back, split⟩ := List.append_of_mem inMembers
    -- Only the last disjunct of this member fails.
    have different := same (falseOn
      ((leavesOf front).length + (leavesOf init).length) last.leaves.length)
    rw [split] at different
    rw [evalAllFrom_operandsOf_falseOn (proper _ inMembers) (positive _ inMembers)
        notClause,
      evalAllFrom_falseOn (split ▸ proper) (split ▸ positive)] at different
    simp at different
  · intro isClause truth
    rw [operandsOf_ruleTrees_of_isClause proper isClause]
    refine combinedFrom_map (fun member _ => ⟨?_, ?_⟩) .and 0
    · rw [leaves_map, List.length_map]
    · exact fun start => evalFrom_map truth Condition.reworded start member

end Formula

namespace RuleTree

open Expression

/-- On its way through its rule tree a domain keeps its conditions, in the words of
rules, and their order. It keeps its truth under all truth values of its conditions
exactly when its formula is a conjunction of clauses. -/
theorem roundTrip_keeps_truth_iff_isClausal
    {domain : Domain}
    {tree : RuleTree}
    (accepted : ofDomain domain = .ok tree) :
    ∃ formula back : Formula Condition,
      domain.parsed = .ok formula ∧
      tree.toDomain.parsed = .ok back ∧
      formula.leaves = domain.conditions ∧
      back.leaves = tree.toDomain.conditions ∧
      tree.toDomain.conditions = domain.conditions.map Condition.reworded ∧
      ((∀ truth, back.evalFrom truth 0 = formula.evalFrom truth 0) ↔
        formula.IsClausal) := by
  obtain ⟨expressions, rfl, negationFree, rfl⟩ := ofDomain_eq_ok accepted
  let members := (expressions.map formula).flatMap (Formula.membersBy .and)
  have properMember : ∀ member ∈ members,
      member.combinesBy .and = false ∧ member.Proper := fun _ =>
    Formula.Proper.of_mem_flatMap_membersBy
      (List.forall_mem_map.mpr fun expression _ => expression.proper_formula)
  have positive : ∀ member ∈ members, member.Positive := fun _ =>
    Formula.Positive.of_mem_flatMap_membersBy
      (List.forall_mem_map.mpr fun expression inExpressions =>
        (negationFree expression inExpressions).positive_formula)
  have proper : ∀ member ∈ members, member.Proper :=
    fun member inMembers => (properMember member inMembers).2
  have notAnd : ∀ member ∈ members, member.isAnd = false :=
    fun member inMembers => (properMember member inMembers).1
  have membersEq : Formula.conjunction (expressions.map formula) =
      .and members := rfl
  have leavesEq : Formula.leavesOf members =
      (Expression.write expressions).conditions := by
    rw [conditions_write,
      ← Formula.leaves_conjunction (expressions.map formula), membersEq,
      Formula.leaves]
  have clausal : (Formula.and members).IsClausal ↔
      ∀ member ∈ members, member.IsClause := by
    simp [Formula.IsClausal]
  rw [membersEq, Formula.toDomain_rootTree proper positive]
  refine ⟨_, _, parsed_write expressions, parsed_write _, ?_, ?_, ?_, ?_⟩
  · rw [conditions_write, Formula.leaves_conjunction]
  · rw [conditions_write, Formula.leaves_conjunction]
  · rw [conditions_write, Formula.leavesOf_operandsOf_ruleTrees, leavesEq]
  · simp only [Formula.evalFrom_conjunction _ _ ((operandsOf _).map formula)]
    rw [membersEq, clausal]
    simp only [Formula.evalFrom]
    exact Formula.evalAllFrom_operandsOf_eq_iff proper notAnd positive

/-- A disjunction of conditions beside a condition comes back with its meaning. -/
theorem roundTrip_keeps_disjunction_beside_condition :
    let test : String → Item := fun field => .condition ⟨field, "=", .literal .null⟩
    let domain : Domain := [.marker "|", test "a", test "b", test "c"]
    ∃ tree formula back,
      ofDomain domain = .ok tree ∧
      domain.parsed = .ok formula ∧
      tree.toDomain.parsed = .ok back ∧
      formula.IsClausal ∧
      ∀ truth, back.evalFrom truth 0 = formula.evalFrom truth 0 := by
  intro test domain
  have accepted : ofDomain domain = .ok (.query .and
      [.query .or [.rule ⟨"a", "=", .literal .null⟩, .rule ⟨"b", "=", .literal .null⟩],
      .rule ⟨"c", "=", .literal .null⟩]) := by rfl
  obtain ⟨formula, back, parsed, parsedBack, _, _, _, same⟩ :=
    roundTrip_keeps_truth_iff_isClausal accepted
  have formula_eq : formula = .and
      [.or [.leaf ⟨"a", "=", .literal .null⟩, .leaf ⟨"b", "=", .literal .null⟩],
      .leaf ⟨"c", "=", .literal .null⟩] := by
    have computed := parsed.symm.trans (show domain.parsed = .ok _ from rfl)
    exact Except.ok.inj computed
  have clausal : formula.IsClausal := by
    refine ⟨_, formula_eq, ?_⟩
    simp [Formula.IsClause]
  exact ⟨_, formula, back, accepted, parsed, parsedBack, clausal, same.mpr clausal⟩

/-- The disjunction of a conjunction and a condition comes back as another domain,
which asks for one of two conditions and for the third. Where only the third holds, it
fails. -/
theorem roundTrip_loses_conjunction_below_disjunction :
    let test : String → Item := fun field => .condition ⟨field, "=", .literal .null⟩
    let domain : Domain := [.marker "|", .marker "&", test "a", test "b", test "c"]
    let onlyThird : Nat → Bool := fun position => position = 2
    ∃ tree formula back,
      ofDomain domain = .ok tree ∧
      tree.toDomain = [.marker "|", test "a", test "b", test "c"] ∧
      domain.parsed = .ok formula ∧
      tree.toDomain.parsed = .ok back ∧
      formula.evalFrom onlyThird 0 = true ∧
      back.evalFrom onlyThird 0 = false := by
  intro test domain onlyThird
  let rule : String → RuleTree := fun field => .rule ⟨field, "=", .literal .null⟩
  let leaf : String → Formula Condition := fun field => .leaf ⟨field, "=", .literal .null⟩
  exact ⟨.query .or [.query .and [rule "a", rule "b"], rule "c"],
    .and [.or [.and [leaf "a", leaf "b"], leaf "c"]],
    .and [.or [leaf "a", leaf "b"], leaf "c"], rfl, rfl, rfl, rfl, by decide, by decide⟩

end RuleTree

end DomainSql
