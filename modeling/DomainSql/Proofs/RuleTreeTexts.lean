import DomainSql.Console
import DomainSql.Proofs.RuleTreeDepth
import DomainSql.Proofs.RuleTreeEncoding

/-!
# Texts of rule trees

The rule tree of a domain is written as JSON text. Its numbers are those of the domain.
So the text is read back as the tree, unless more arrays and objects are open in it at
once than the reader has room for.

There can be more of them although the text of the domain was read: a value stands one
level deeper in a tree than in a domain, and every change between "and" and "or" takes
two more levels, while a domain stays flat.
-/

namespace DomainSql

/-- The numbers in a domain are those in its conditions. -/
theorem Domain.numbers_eq_flatMap_conditions (domain : Domain) :
    domain.numbers = domain.conditions.flatMap (·.operand.numbers) := by
  induction domain with
  | nil => rfl
  | cons item rest inductionHypothesis =>
      rw [Domain.numbers, List.flatMap_cons, ← Domain.numbers, inductionHypothesis]
      cases item with
      | condition inner => rw [Domain.conditions_cons_condition, List.flatMap_cons, Item.numbers]
      | marker text => rw [Domain.conditions_cons_marker, Item.numbers, List.nil_append]

namespace RuleTree

mutual

/-- Without floating-point numbers the text of a rule tree keeps its numbers. -/
theorem keepsNumbers_toJson
    (order : Json.KeyOrder) : ∀ {tree : RuleTree},
    (∀ rule ∈ tree.rules, ∀ value, .float value ∉ rule.numbers) →
      (tree.toJson order).KeepsNumbers
  | .rule inner, floatless =>
      ⟨trivial, trivial,
        Operand.keepsNumbers_toJson (floatless inner List.mem_cons_self) order, trivial⟩
  | .query _ _, floatless =>
      ⟨trivial, itemsKeepNumbers_toJsonMembers order floatless, trivial⟩

theorem itemsKeepNumbers_toJsonMembers
    (order : Json.KeyOrder) : ∀ {trees : List RuleTree},
    (∀ rule ∈ rulesOf trees, ∀ value, .float value ∉ rule.numbers) →
      Json.ItemsKeepNumbers (toJsonMembers order trees)
  | [], _ => trivial
  | _ :: _, floatless =>
      ⟨keepsNumbers_toJson order fun rule inFirst =>
          floatless rule (List.mem_append_left _ inFirst),
        itemsKeepNumbers_toJsonMembers order fun rule inRest =>
          floatless rule (List.mem_append_right _ inRest)⟩

end

end RuleTree

@[simp] theorem Rule.canonical_toJson
    (order : Json.KeyOrder)
    (rule : Rule) :
    (rule.toJson order).canonical = rule.toJson .sorted := by
  have ascend : ["field", "operator", "value"].Pairwise (· < ·) := by decide
  simp only [toJson, Json.canonical, Json.canonicalFields, Operand.canonical_toJson]
  exact congrArg Json.obj (Json.KeysAscend.sortFields_eq (Json.keysAscend_iff.mpr ascend))

namespace RuleTree

mutual

/-- The reader brings a rule tree into the order of the encoder. -/
@[simp] theorem canonical_toJson
    (order : Json.KeyOrder) : ∀ tree : RuleTree,
    (tree.toJson order).canonical = tree.toJson .sorted
  | .rule inner => inner.canonical_toJson order
  | .query combinator members => by
      have ascend : ["combinator", "rules"].Pairwise (· < ·) := by decide
      simp only [toJson, Json.canonical, Json.canonicalFields,
        canonicalItems_toJsonMembers order members]
      exact congrArg Json.obj (Json.KeysAscend.sortFields_eq (Json.keysAscend_iff.mpr ascend))

theorem canonicalItems_toJsonMembers
    (order : Json.KeyOrder) : ∀ trees : List RuleTree,
    Json.canonicalItems (toJsonMembers order trees) = toJsonMembers .sorted trees
  | [] => rfl
  | tree :: rest => by
      rw [toJsonMembers, Json.canonicalItems, canonical_toJson order tree,
        canonicalItems_toJsonMembers order rest, toJsonMembers]

end

/-! ## Reading the text of a tree -/

theorem read_eq_ok_iff
    {text : String}
    {tree : RuleTree} :
    read text = .ok tree ↔
      ∃ json, Json.readWritten text = .ok json ∧ ofJson json.canonical = .ok tree := by
  rw [read, Json.read]
  cases Json.readWritten text with
  | error fault => simp [Except.map, Except.mapError, bind, Except.bind]
  | ok json => simp [Except.map, Except.mapError, bind, Except.bind]

/-- A text of a rule tree without floating-point numbers is read as this tree, and as
nothing else, as long as there is room for its arrays and objects. -/
theorem read_text_eq_ok_iff
    {tree : RuleTree}
    (floatless : ∀ value, .float value ∉ tree.numbers)
    {order : Json.KeyOrder}
    {text : String}
    (output : text = (tree.toJson order).compact ∨ text = (tree.toJson order).indented)
    {other : RuleTree} :
    read text = .ok other ↔ (tree.toJson order).depth ≤ 127 ∧ other = tree := by
  have keeps : (tree.toJson order).KeepsNumbers :=
    keepsNumbers_toJson order fun rule inRules value inNumbers =>
      floatless value (List.mem_flatMap.mpr ⟨rule, inRules, inNumbers⟩)
  have decoded : ofJson (tree.toJson order).canonical = .ok tree := by
    rw [canonical_toJson, ofJson_toJson_iff]
    exact List.forall_mem_flatMap.mp (Literal.forall_isFinite floatless)
  rw [read_eq_ok_iff, keeps.decoded_eq_ok_iff decoded output]

/-! ## The tree of a domain -/

theorem rules_rootTree (formula : Formula Condition) :
    formula.rootTree.rules = formula.leaves.map Rule.ofCondition := by
  unfold Formula.rootTree
  split
  · simp [rules, Formula.leaves, Formula.leavesOf, Formula.rulesOf_ruleTrees]
  · exact Formula.rules_ruleTree _

/-- The rules of the tree of a domain are its conditions, in the words of rules. -/
theorem rules_of_ofDomain
    {domain : Domain}
    {tree : RuleTree}
    (converted : ofDomain domain = .ok tree) :
    tree.rules = domain.conditions.map Rule.ofCondition := by
  -- Reading a domain keeps its conditions in order: both sides are the leaves of one formula.
  obtain ⟨expressions, rfl, _, rfl⟩ := ofDomain_eq_ok converted
  rw [rules_rootTree, Formula.leaves_conjunction, Expression.conditions_write]

/-- The numbers in the tree of a domain are those in the domain. -/
theorem numbers_of_ofDomain
    {domain : Domain}
    {tree : RuleTree}
    (converted : ofDomain domain = .ok tree) :
    tree.numbers = domain.numbers := by
  rw [numbers, rules_of_ofDomain converted, Domain.numbers_eq_flatMap_conditions,
    List.flatMap_map]
  rfl

/-- The console shows the indented text of the rule tree of a domain. -/
theorem treeOf_eq_ok
    {text : String}
    {domain : Domain}
    {tree : RuleTree}
    (accepted : Domain.read text = .ok domain)
    (converted : ofDomain domain = .ok tree) :
    Console.treeOf text = .ok (tree.toJson .declared).indented := by
  simp [Console.treeOf, accepted, converted, Except.mapError, ok_bind, pure, Except.pure]

/-- The text that is shown for the rule tree of a domain without floating-point numbers
is read back as that tree, and as no other one, exactly when no more than 127 arrays and
objects are open in it at once. With one more of them it is refused. The same holds for
the compact text of the tree, in either order of the fields. The text of the tree is at
most one level deeper than that of the domain, and two more for every marker. -/
theorem shown_tree_is_read_back_iff
    {text : String}
    {domain : Domain}
    {tree : RuleTree}
    (accepted : Domain.read text = .ok domain)
    (floatless : ∀ value, .float value ∉ domain.numbers)
    (converted : ofDomain domain = .ok tree) :
    Console.treeOf text = .ok (tree.toJson .declared).indented ∧
    (∀ order output,
      output = tree.write order ∨ output = (tree.toJson order).indented →
      ∀ other, read output = .ok other ↔ (tree.toJson order).depth ≤ 127 ∧ other = tree) ∧
    ∀ order,
      (tree.toJson order).depth ≤ (domain.toJson order).depth + 2 * domain.markers + 1 := by
  refine ⟨treeOf_eq_ok accepted converted, fun order output printed other => ?_,
    fun order => depth_le_of_ofDomain order converted⟩
  rw [← numbers_of_ofDomain converted] at floatless
  exact read_text_eq_ok_iff floatless printed

/-- The tree of a disjunction is shown and read back. -/
theorem shown_disjunction_is_read_back :
    let text := "[\"|\",[\"a\",\"=\",1],[\"b\",\"in\",[\"c\",null]]]"
    let domain : Domain := [.marker "|", .condition ⟨"a", "=", .literal (.int 1)⟩,
      .condition ⟨"b", "in", .literal (.list [.text "c", .null])⟩]
    let tree : RuleTree := .query .or [.rule ⟨"a", "=", .literal (.int 1)⟩,
      .rule ⟨"b", "in", .literal (.list [.text "c", .null])⟩]
    Domain.read text = .ok domain ∧
    (∀ value, .float value ∉ domain.numbers) ∧
    ofDomain domain = .ok tree ∧
    Console.treeOf text = .ok (tree.toJson .declared).indented ∧
    read (tree.toJson .declared).indented = .ok tree ∧
    read (tree.write .sorted) = .ok tree := by
  intro text domain tree
  have accepted : Domain.read text = .ok domain := eq_ok_of_toOption_eq_some (by decide +kernel)
  have floatless : ∀ value, .float value ∉ domain.numbers := by
    simp [domain, Domain.numbers, Item.numbers, Operand.numbers, Literal.numbers,
      Literal.numbersOf]
  have converted : ofDomain domain = .ok tree := by rfl
  obtain ⟨shown, readBack, _⟩ := shown_tree_is_read_back_iff accepted floatless converted
  exact ⟨accepted, floatless, converted, shown,
    (readBack .declared _ (.inr rfl) tree).mpr ⟨by decide, rfl⟩,
    (readBack .sorted _ (.inl rfl) tree).mpr ⟨by decide, rfl⟩⟩

/-- The empty list inside of lists. -/
def nestedList : Nat → Literal
  | 0 => .list []
  | levels + 1 => .list [nestedList levels]

theorem numbers_nestedList (levels : Nat) : (nestedList levels).numbers = [] := by
  induction levels with
  | zero => rfl
  | succ levels inductionHypothesis =>
      simp [nestedList, Literal.numbers, Literal.numbersOf, inductionHypothesis]

theorem depth_nestedList (levels : Nat) : (nestedList levels).toJson.depth = levels + 1 := by
  induction levels with
  | zero => rfl
  | succ levels inductionHypothesis =>
      simp [nestedList, Literal.toJson, Literal.toJsonItems, Json.depth, Json.depthOfItems,
        inductionHypothesis]

/-- A domain with a list nested as deeply as its text can be is accepted and has a rule
tree, and no text of the tree is accepted. -/
theorem deep_value_is_shown_and_refused :
    let domain : Domain := [.condition ⟨"a", "=", .literal (nestedList 124)⟩]
    let tree : RuleTree := .query .and [.rule ⟨"a", "=", .literal (nestedList 124)⟩]
    let text := domain.write .sorted
    Domain.read text = .ok domain ∧
    (∀ value, .float value ∉ domain.numbers) ∧
    ofDomain domain = .ok tree ∧
    Console.treeOf text = .ok (tree.toJson .declared).indented ∧
    (∀ other, read (tree.toJson .declared).indented ≠ .ok other) ∧
    ∀ other, read (tree.write .sorted) ≠ .ok other := by
  intro domain tree text
  have floatless : ∀ value, .float value ∉ domain.numbers := by
    simp [domain, Domain.numbers, Item.numbers, Operand.numbers, numbers_nestedList]
  have full : (domain.toJson .sorted).depth = 127 := by
    simp [domain, Domain.toJson, Item.toJson, Condition.toJson, Operand.toJson, Json.depth,
      Json.depthOfItems, depth_nestedList]
  have tooDeep : ∀ order, (tree.toJson order).depth = 128 := by
    simp [tree, toJson, toJsonMembers, Rule.toJson, Operand.toJson, Json.depth,
      Json.depthOfItems, Json.depthOfFields, depth_nestedList]
  have accepted : Domain.read text = .ok domain :=
    (Domain.read_text_eq_ok_iff floatless (.inl rfl)).mpr ⟨full.le, rfl⟩
  have converted : ofDomain domain = .ok tree := by rfl
  have refused : ∀ {order shown},
      shown = (tree.toJson order).compact ∨ shown = (tree.toJson order).indented →
      ∀ other, read shown ≠ .ok other := by
    intro order shown output other isRead
    rw [← numbers_of_ofDomain converted] at floatless
    have fits := ((read_text_eq_ok_iff floatless output).mp isRead).1
    rw [tooDeep] at fits
    exact absurd fits (by decide)
  exact ⟨accepted, floatless, converted, treeOf_eq_ok accepted converted,
    refused (.inr rfl), refused (.inl rfl)⟩

end RuleTree

end DomainSql
