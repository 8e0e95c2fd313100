import DomainSql.Proofs.RuleTreeRoundTrip
import Mathlib.Data.Set.List

/-!
# The canonical domain of a conjunction of clauses

A conjunction of clauses has a canonical domain: group after group, each with all its
"or" markers in front. This is what comes back through the rule tree of any domain with
that formula, however its own markers are arranged, with the operators in the words of
conditions. A domain that is written so already comes back as it is, and going through
the rule tree a second time changes nothing.
-/

namespace DomainSql

/-! ## Words -/

/-- A word that a table does not have for an entry stays as it is. -/
theorem renamed_of_not_mem
    {table : List (String × String)}
    {word : String}
    (unknown : word ∉ table.map Prod.fst) :
    renamed table word = word := by
  have notFound : (table.find? fun entry => entry.1 == word) = none := by
    rw [List.find?_eq_none]
    intro entry inTable
    rw [beq_iff_eq]
    rintro rfl
    exact unknown (List.mem_map_of_mem inTable)
  rw [renamed, notFound]

namespace Rule

/-- The word of conditions for a word of conditions, by way of rules. -/
def respelled (word : String) : String :=
  renamed conditionWords (renamed ruleWords word)

/-- Every word of the tables has a spelling that stays. -/
theorem respelled_respelled (word : String) :
    respelled (respelled word) = respelled word := by
  by_cases known : word ∈ ruleWords.map Prod.fst ++ conditionWords.map Prod.fst
  · revert word
    decide
  · rw [List.mem_append, not_or] at known
    have stays : respelled word = word := by
      rw [respelled, renamed_of_not_mem known.1, renamed_of_not_mem known.2]
    rw [stays, stays]

theorem membershipOperand_membershipOperand (operand : Operand) :
    membershipOperand (membershipOperand operand) = membershipOperand operand := by
  rcases operand with value | path | function
  · cases value <;> rfl
  · rfl
  · rfl

end Rule

namespace Condition

theorem reworded_eq (condition : Condition) :
    condition.reworded = {
      field := condition.field
      operator := Rule.respelled condition.operator
      operand :=
        if Rule.respelled condition.operator = "in" ∨
            Rule.respelled condition.operator = "not in" then
          Rule.membershipOperand condition.operand
        else condition.operand } := rfl

/-- A second trip through the words of rules changes nothing. -/
@[simp] theorem reworded_reworded (condition : Condition) :
    condition.reworded.reworded = condition.reworded := by
  simp only [reworded_eq, Rule.respelled_respelled, mk.injEq, true_and]
  split
  · exact Rule.membershipOperand_membershipOperand condition.operand
  · rfl

end Condition

/-! ## Groups -/

/-- Conditions of which one has to hold: a first one, and others. -/
structure ConditionGroup where
  first : Condition
  others : List Condition

namespace ConditionGroup

/-- The conditions of a group, in order. -/
def conditions (group : ConditionGroup) : List Condition :=
  group.first :: group.others

/-- The formula of a group: its condition, or the disjunction of its conditions. -/
def formula (group : ConditionGroup) : Formula Condition :=
  match group.others with
  | [] => .leaf group.first
  | _ :: _ => .or (group.conditions.map .leaf)

/-- The domain of a group: a marker for each condition but the first, and then the
conditions. -/
def items (group : ConditionGroup) : Domain :=
  List.replicate group.others.length (.marker Marker.or.text)
    ++ group.conditions.map .condition

/-- A group after a trip through the words of rules. -/
def reworded (group : ConditionGroup) : ConditionGroup where
  first := group.first.reworded
  others := group.others.map Condition.reworded

@[simp] theorem conditions_reworded (group : ConditionGroup) :
    group.reworded.conditions = group.conditions.map Condition.reworded := rfl

@[simp] theorem reworded_reworded (group : ConditionGroup) :
    group.reworded.reworded = group.reworded := by
  simp [reworded]

theorem reworded_of_conditions
    {group : ConditionGroup}
    (fixed : ∀ condition ∈ group.conditions, condition.reworded = condition) :
    group.reworded = group := by
  obtain ⟨first, others⟩ := group
  simp only [conditions, List.mem_cons, forall_eq_or_imp] at fixed
  rw [reworded, mk.injEq]
  exact ⟨fixed.1, (List.map_congr_left fixed.2).trans (List.map_id' others)⟩

@[simp] theorem conjuncts_formula (group : ConditionGroup) :
    group.formula.conjuncts = [group.formula] := by
  rw [formula]
  split <;> rfl

/-- A proper clause is the formula of a group. -/
theorem exists_formula_eq
    {clause : Formula Condition}
    (proper : clause.Proper)
    (isClause : clause.IsClause) :
    ∃ group : ConditionGroup, group.formula = clause := by
  cases proper with
  | leaf condition => exact ⟨⟨condition, []⟩, rfl⟩
  | and _ _ _ => exact isClause.elim
  | not _ => exact isClause.elim
  | or two_le _ _ =>
      obtain ⟨values, rfl⟩ := Formula.exists_eq_map_leaf isClause
      match values with
      | [] => simp at two_le
      | [_] => simp at two_le
      | first :: second :: rest => exact ⟨⟨first, second :: rest⟩, rfl⟩

end ConditionGroup

namespace Domain

/-- The canonical domain of groups of which all have to hold. -/
def ofGroups (groups : List ConditionGroup) : Domain :=
  groups.flatMap ConditionGroup.items

@[simp] theorem ofGroups_cons
    (group : ConditionGroup)
    (rest : List ConditionGroup) :
    ofGroups (group :: rest) = group.items ++ ofGroups rest := by
  simp [ofGroups]

theorem conditions_items (group : ConditionGroup) :
    conditions group.items = group.conditions := by
  have noConditions : ∀ count,
      conditions (List.replicate count (.marker Marker.or.text)) = [] := by
    simp [conditions, Item.condition?]
  rw [ConditionGroup.items, conditions_append, noConditions, List.nil_append]
  simp [conditions, Function.comp_def, Item.condition?]

theorem mem_conditions_ofGroups
    {groups : List ConditionGroup}
    {group : ConditionGroup}
    {condition : Condition}
    (inGroups : group ∈ groups)
    (inGroup : condition ∈ group.conditions) :
    condition ∈ (ofGroups groups).conditions := by
  obtain ⟨front, back, rfl⟩ := List.append_of_mem inGroups
  simp [ofGroups, conditions_items, inGroup]

end Domain

/-! ## Reading groups -/

namespace Formula

/-- The disjunction of leaves has them for its members. -/
theorem disjunction_map_leaf
    {Leaf : Type}
    (values : List Leaf) :
    disjunction (values.map leaf) = .or (values.map leaf) := by
  rw [disjunction, List.flatMap_map, List.map_eq_flatMap]
  rfl

end Formula

namespace Expression

theorem write_map_leaf (conditions : List Condition) :
    write (conditions.map leaf) = conditions.map .condition := by
  induction conditions with
  | nil => rfl
  | cons condition rest inductionHypothesis => simp [items, inductionHypothesis]

/-- A group is written by one expression, whose formula is that of the group. -/
theorem exists_items_eq_items (group : ConditionGroup) :
    ∃ expression : Expression Condition,
      expression.items = group.items ∧ expression.formula = group.formula ∧
        expression.NegationFree := by
  obtain ⟨first, others⟩ := group
  cases others with
  | nil => exact ⟨.leaf first, rfl, rfl, trivial⟩
  | cons second rest =>
      obtain ⟨whole, found, formula_eq⟩ := orFirst_all
        (.leaf first) ((second :: rest).map .leaf) (by simp)
      rw [← List.map_cons] at found formula_eq
      have enough : ((second :: rest).map leaf).length <
          ((first :: second :: rest).map leaf).length := by simp
      have written := write_orFirst enough
      rw [found, write_map_leaf] at written
      have single : ((first :: second :: rest).map leaf).map formula =
          (first :: second :: rest).map .leaf := by simp [formula]
      have free : ∀ expression ∈ (first :: second :: rest).map leaf,
          expression.NegationFree := by simp [NegationFree]
      refine ⟨whole, ?_, ?_, ?_⟩
      · simpa [ConditionGroup.items, ConditionGroup.conditions] using written
      · rw [formula_eq, single, Formula.disjunction_map_leaf]
        rfl
      · exact negationFree_of_mem_orFirst free whole (by rw [found]; simp)

/-- Groups are written by as many expressions, whose formulas are those of the
groups. -/
theorem exists_write_eq_ofGroups (groups : List ConditionGroup) :
    ∃ expressions : List (Expression Condition),
      write expressions = Domain.ofGroups groups ∧
      expressions.map formula = groups.map ConditionGroup.formula ∧
      ∀ expression ∈ expressions, expression.NegationFree := by
  induction groups with
  | nil => exact ⟨[], rfl, rfl, nofun⟩
  | cons group rest inductionHypothesis =>
      obtain ⟨expression, items_eq, formula_eq, negationFree⟩ :=
        exists_items_eq_items group
      obtain ⟨expressions, written, formulas_eq, restFree⟩ := inductionHypothesis
      refine ⟨expression :: expressions, ?_, ?_, ?_⟩
      · rw [write_cons, items_eq, written, Domain.ofGroups_cons]
      · rw [List.map_cons, List.map_cons, formula_eq, formulas_eq]
      · simpa [negationFree] using restFree

end Expression

namespace Formula

open RuleTree Expression

/-- The conjunction of the formulas of groups has these for its members. -/
theorem conjunction_map_formula (groups : List ConditionGroup) :
    conjunction (groups.map ConditionGroup.formula) =
      .and (groups.map ConditionGroup.formula) := by
  rw [conjunction, List.flatMap_map, List.map_eq_flatMap]
  simp only [ConditionGroup.conjuncts_formula]

theorem toDomainOf_ruleTrees_map_leaf (conditions : List Condition) :
    toDomainOf (ruleTrees (conditions.map .leaf)) =
      (conditions.map Condition.reworded).map .condition := by
  induction conditions with
  | nil => rfl
  | cons condition rest inductionHypothesis =>
      rw [List.map_cons, ruleTrees, toDomainOf, inductionHypothesis]
      rfl

/-- The tree of the formula of a group is written as the group, reworded. -/
theorem toDomain_ruleTree_formula (group : ConditionGroup) :
    group.formula.ruleTree.toDomain = group.reworded.items := by
  rw [ConditionGroup.items, ConditionGroup.conditions_reworded,
    ← toDomainOf_ruleTrees_map_leaf]
  obtain ⟨first, others⟩ := group
  cases others with
  | nil => rfl
  | cons second rest =>
      simp [ConditionGroup.formula, ConditionGroup.reworded,
        ConditionGroup.conditions, ruleTree, toDomain, ruleTrees_eq_map]

/-- The tree of a conjunction of groups is written as the groups, reworded. -/
theorem toDomain_rootTree_formula (groups : List ConditionGroup) :
    (Formula.and (groups.map ConditionGroup.formula)).rootTree.toDomain =
      Domain.ofGroups (groups.map ConditionGroup.reworded) := by
  rw [toDomain_rootTree_eq_toDomainOf]
  induction groups with
  | nil => rfl
  | cons group rest inductionHypothesis =>
      rw [List.map_cons, ruleTrees, toDomainOf, toDomain_ruleTree_formula,
        inductionHypothesis, List.map_cons, Domain.ofGroups_cons]

/-! ## Conjunctions and disjunctions -/

variable {Leaf : Type}

/-- There is no conjunction in the formula. -/
inductive AndFree : Formula Leaf → Prop
  | leaf (value : Leaf) : AndFree (.leaf value)
  | or
      {members : List (Formula Leaf)}
      (andFree : ∀ member ∈ members, AndFree member) :
      AndFree (.or members)
  | not
      {inner : Formula Leaf}
      (andFree : AndFree inner) :
      AndFree (.not inner)

/-- There is no conjunction below a disjunction in the formula. -/
inductive NoAndBelowOr : Formula Leaf → Prop
  | leaf (value : Leaf) : NoAndBelowOr (.leaf value)
  | and
      {members : List (Formula Leaf)}
      (noAndBelowOr : ∀ member ∈ members, NoAndBelowOr member) :
      NoAndBelowOr (.and members)
  | or
      {members : List (Formula Leaf)}
      (andFree : ∀ member ∈ members, AndFree member) :
      NoAndBelowOr (.or members)
  | not
      {inner : Formula Leaf}
      (noAndBelowOr : NoAndBelowOr inner) :
      NoAndBelowOr (.not inner)

/-- A proper formula without negation that has no conjunction below a disjunction is a
clause, if it is no conjunction itself. -/
theorem NoAndBelowOr.isClause
    {formula : Formula Leaf}
    (noAndBelowOr : formula.NoAndBelowOr)
    (proper : formula.Proper)
    (positive : formula.Positive)
    (notAnd : formula.isAnd = false) :
    formula.IsClause := by
  cases noAndBelowOr with
  | leaf value => trivial
  | and _ => simp [isAnd] at notAnd
  | not _ => cases positive
  | or andFree =>
      cases proper with
      | or _ notOr _ =>
          cases positive with
          | or positive =>
              intro member inMembers
              have different := notOr member inMembers
              have memberPositive := positive member inMembers
              cases andFree member inMembers with
              | leaf value => exact ⟨value, rfl⟩
              | or _ => simp [isOr] at different
              | not _ => cases memberPositive

/-- The conjunction of proper formulas without negation is one of groups, if it has no
conjunction below a disjunction. -/
theorem exists_conjunction_eq_and_groups
    {formulas : List (Formula Condition)}
    (proper : ∀ formula ∈ formulas, formula.Proper)
    (positive : ∀ formula ∈ formulas, formula.Positive)
    (noAndBelowOr : (conjunction formulas).NoAndBelowOr) :
    ∃ groups : List ConditionGroup,
      conjunction formulas = .and (groups.map ConditionGroup.formula) := by
  rw [conjunction] at noAndBelowOr ⊢
  cases noAndBelowOr with
  | and noAndBelowOr =>
      have eachGroup : ∀ member ∈ formulas.flatMap (membersBy .and),
          member ∈ Set.range ConditionGroup.formula := by
        intro member inMembers
        obtain ⟨notAnd, memberProper⟩ := Proper.of_mem_flatMap_membersBy proper inMembers
        have memberPositive := Positive.of_mem_flatMap_membersBy positive inMembers
        exact ConditionGroup.exists_formula_eq memberProper
          ((noAndBelowOr member inMembers).isClause memberProper memberPositive
            notAnd)
      obtain ⟨groups, groups_eq⟩ : formulas.flatMap conjuncts ∈
          Set.range (List.map ConditionGroup.formula) := by
        rw [Set.range_list_map]
        exact eachGroup
      exact ⟨groups, by rw [groups_eq]⟩

end Formula

namespace RuleTree

open Expression

/-- A canonical domain comes back in the words of conditions. -/
theorem exists_ofDomain_ofGroups (groups : List ConditionGroup) :
    ∃ tree, ofDomain (Domain.ofGroups groups) = .ok tree ∧
      tree.toDomain = Domain.ofGroups (groups.map ConditionGroup.reworded) := by
  obtain ⟨expressions, written, formulas_eq, negationFree⟩ :=
    exists_write_eq_ofGroups groups
  refine ⟨_, ?_, Formula.toDomain_rootTree_formula groups⟩
  rw [← written, ofDomain_write negationFree, formulas_eq,
    Formula.conjunction_map_formula]

/-- If the formula of a domain has no conjunction below a disjunction, it is a
conjunction of groups, and the domain that comes back through the rule tree is the
canonical one of these groups, reworded; this one comes back unchanged. A canonical
domain whose conditions stay when they are reworded comes back as it is. -/
theorem roundTrip_yields_canonical_domain (domain : Domain) :
    (∀ tree formula,
      ofDomain domain = .ok tree →
      domain.parsed = .ok formula →
      formula.NoAndBelowOr →
      ∃ groups : List ConditionGroup,
        formula = .and (groups.map ConditionGroup.formula) ∧
        tree.toDomain = Domain.ofGroups (groups.map ConditionGroup.reworded) ∧
        ∃ again, ofDomain tree.toDomain = .ok again ∧
          again.toDomain = tree.toDomain) ∧
    ∀ groups : List ConditionGroup,
      domain = Domain.ofGroups groups →
      (∀ condition ∈ domain.conditions, condition.reworded = condition) →
      ∃ tree, ofDomain domain = .ok tree ∧ tree.toDomain = domain := by
  constructor
  · intro tree formula accepted parsed noAndBelowOr
    obtain ⟨expressions, rfl, negationFree, rfl⟩ := ofDomain_eq_ok accepted
    obtain rfl := Except.ok.inj ((parsed_write expressions).symm.trans parsed)
    obtain ⟨groups, groups_eq⟩ := Formula.exists_conjunction_eq_and_groups
      (by simp [proper_formula])
      (by simpa using fun expression inExpressions =>
        (negationFree expression inExpressions).positive_formula)
      noAndBelowOr
    rw [groups_eq, Formula.toDomain_rootTree_formula]
    obtain ⟨again, read, back⟩ :=
      exists_ofDomain_ofGroups (groups.map ConditionGroup.reworded)
    have settled : (groups.map ConditionGroup.reworded).map
        ConditionGroup.reworded = groups.map ConditionGroup.reworded := by
      simp
    exact ⟨groups, rfl, rfl, again, read, by rw [back, settled]⟩
  · rintro groups rfl fixed
    obtain ⟨tree, read, back⟩ := exists_ofDomain_ofGroups groups
    have groupsFixed : groups.map ConditionGroup.reworded = groups := by
      refine (List.map_congr_left fun group inGroups => ?_).trans (List.map_id' groups)
      exact ConditionGroup.reworded_of_conditions fun condition inGroup =>
        fixed condition (Domain.mem_conditions_ofGroups inGroups inGroup)
    exact ⟨tree, read, by rw [back, groupsFixed]⟩

/-- Nested markers of one kind come back in front of their conditions, and the words of
the conditions in their usual spelling. -/
theorem roundTrip_gathers_markers :
    let test : String → String → Literal → Item := fun field operator value =>
      .condition ⟨field, operator, .literal value⟩
    let domain : Domain :=
      [.marker "&", .marker "|", test "a" "<>" .null, .marker "|",
        test "b" "in" (.text "x, y"), test "c" "=ilike" (.text "z"),
        test "d" "=" .null]
    ∃ tree formula,
      ofDomain domain = .ok tree ∧
      domain.parsed = .ok formula ∧
      formula.NoAndBelowOr ∧
      tree.toDomain =
        [.marker "|", .marker "|", test "a" "!=" .null,
          test "b" "in" (.list [.text "x", .text "y"]),
          test "c" "ilike" (.text "z"), test "d" "=" .null] ∧
      ∃ again, ofDomain tree.toDomain = .ok again ∧
        again.toDomain = tree.toDomain := by
  intro test domain
  obtain ⟨tree, accepted, back⟩ : ∃ tree, ofDomain domain = .ok tree ∧
      tree.toDomain =
        [.marker "|", .marker "|", test "a" "!=" .null,
          test "b" "in" (.list [.text "x", .text "y"]),
          test "c" "ilike" (.text "z"), test "d" "=" .null] :=
    ⟨_, rfl, by decide +kernel⟩
  let leaf : String → String → Literal → Formula Condition :=
    fun field operator value => .leaf ⟨field, operator, .literal value⟩
  let formula : Formula Condition :=
    .and [.or [leaf "a" "<>" .null, leaf "b" "in" (.text "x, y"),
      leaf "c" "=ilike" (.text "z")], leaf "d" "=" .null]
  have parsed : domain.parsed = .ok formula := rfl
  have noAndBelowOr : formula.NoAndBelowOr := by
    refine .and ?_
    simp [leaf, Formula.NoAndBelowOr.leaf, Formula.NoAndBelowOr.or, Formula.AndFree.leaf]
  obtain ⟨_, _, _, again⟩ := (roundTrip_yields_canonical_domain domain).1
    tree formula accepted parsed noAndBelowOr
  exact ⟨tree, formula, accepted, parsed, noAndBelowOr, back, again⟩

end RuleTree
end DomainSql
