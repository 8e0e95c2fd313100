import DomainSql.Proofs.CanonicalDomain
import DomainSql.Proofs.PathKeys
import DomainSql.Proofs.TextLiterals

/-!
# Conditions in the words of rules

A condition whose operator is known keeps its comparison when it goes through the words
of rules, and it is bound in the same way. Only a text that is tested for membership does
not come back as it is: it comes back as the list of its parts between commas. This list
is written as the text alone is, unless the text has a comma or a blank at one of its
ends, and then no dialect writes the two conditions alike.
-/

namespace DomainSql

/-! ## Texts with one part -/

namespace Text

theorem mem_of_mem_trim
    {char : Char}
    {text : String}
    (inTrimmed : char ∈ (trim text).toList) :
    char ∈ text.toList := by
  simp only [trim, trimChars, String.toList_ofList, List.mem_reverse] at inTrimmed
  have inFront := List.mem_reverse.mp ((List.dropWhile_sublist _).subset inTrimmed)
  exact (List.dropWhile_sublist _).subset inFront

end Text

namespace Rule

theorem commaList_eq (text : String) :
    commaList text = .list (((Text.split ',' text).map Text.trim).map .text) := by
  rw [List.map_map]
  rfl

/-- A text is the only entry of its list when it has no comma, and no blank at its
ends. -/
theorem commaList_eq_iff (text : String) :
    commaList text = .list [.text text] ↔
      ',' ∉ text.toList ∧ Text.trim text = text := by
  rw [commaList]
  constructor
  · intro equal
    obtain ⟨part, parts_eq, trimmed⟩ :=
      List.map_eq_singleton_iff.mp (Literal.list.inj equal)
    have trim_eq : Text.trim part = text := Literal.text.inj trimmed
    have noComma : ',' ∉ text.toList := by
      intro inText
      rw [← trim_eq] at inText
      exact Text.not_mem_of_mem_split (parts_eq ▸ List.mem_singleton_self part)
        (Text.mem_of_mem_trim inText)
    rw [Text.split_of_not_mem noComma, List.singleton_inj] at parts_eq
    exact ⟨noComma, parts_eq ▸ trim_eq⟩
  · rintro ⟨noComma, trimmed⟩
    rw [Text.split_of_not_mem noComma, List.map_singleton, trimmed]

/-- The texts in the list of a text are those of its parts. -/
theorem texts_commaList (text : String) :
    (commaList text).texts = (Text.split ',' text).map Text.trim := by
  rw [commaList_eq, Literal.texts, Literal.textsOf_eq_flatMap, List.flatMap_map]
  exact List.flatMap_singleton' _

/-! ## Known operators -/

/-- The word that comes back for a known operator names it too, and it is a word for
membership when the operator tests membership. -/
theorem respelled_of_ofToken?
    {word : String}
    {comparison : Comparison}
    (known : Comparison.ofToken? word = some comparison) :
    Comparison.ofToken? (respelled word) = some comparison ∧
      (respelled word = "in" ∨ respelled word = "not in" ↔
        comparison.isMembership = true) := by
  have all : ∀ entry ∈ Comparison.tokens,
      Comparison.ofToken? (respelled entry.1) = some entry.2 ∧
        (respelled entry.1 = "in" ∨ respelled entry.1 = "not in" ↔
          entry.2.isMembership = true) := by decide
  obtain ⟨entry, found, rfl⟩ := Option.map_eq_some_iff.mp known
  obtain rfl : entry.1 = word := by simpa using List.find?_some found
  exact all entry (List.mem_of_find?_eq_some found)

end Rule

/-! ## Binding -/

/-- A bound operand with a text taken for the list of its parts between commas. -/
def BoundOperand.itemized : BoundOperand → BoundOperand
  | .literal (.text text) => .literal (Rule.commaList text)
  | other => other

/-- A bound condition with a text that is tested for membership taken for the list of
its parts between commas. -/
def BoundCondition.itemized (condition : BoundCondition) : BoundCondition :=
  if condition.comparison.isMembership then
    { condition with operand := condition.operand.itemized }
  else condition

theorem Operand.bind_membershipOperand (operand : Operand) :
    (Rule.membershipOperand operand).bind =
      BoundOperand.itemized <$> operand.bind := by
  cases operand with
  | literal value =>
      cases value <;> simp [Rule.membershipOperand, bind, BoundOperand.itemized]
  | field path => simp [Rule.membershipOperand, bind, BoundOperand.itemized]
  | call function => simp [Rule.membershipOperand, bind, BoundOperand.itemized]

/-- A condition with a known operator is bound as before, but for a text that is tested
for membership. -/
theorem Condition.bind_reworded
    {condition : Condition}
    {comparison : Comparison}
    (known : Comparison.ofToken? condition.operator = some comparison) :
    condition.reworded.bind = BoundCondition.itemized <$> condition.bind := by
  obtain ⟨respelled_known, membership⟩ := Rule.respelled_of_ofToken? known
  rw [reworded_eq]
  simp only [bind, known, respelled_known, membership]
  by_cases isMembership : comparison.isMembership = true
  · simp [isMembership, Operand.bind_membershipOperand, BoundCondition.itemized]
  · simp [isMembership, BoundCondition.itemized]

/-- An operand is bound to a literal when it is this literal. -/
theorem Operand.bound_eq_literal_iff
    {operand : Operand}
    {bound : BoundOperand}
    {session after : Session}
    (ran : outcome operand.bind session = (.ok bound, after))
    (value : Literal) :
    bound = .literal value ↔ operand = .literal value := by
  cases operand with
  | literal other =>
      cases ran
      simp
  | field path =>
      obtain ⟨_, _, _, ran⟩ := outcome_bind_eq_ok_iff.mp ran
      cases ran
      simp
  | call function =>
      obtain ⟨_, _, _, ran⟩ := outcome_bind_eq_ok_iff.mp ran
      cases ran
      simp

/-- A condition is bound with the comparison of its operator, and with its operand as
this is bound behind the field. -/
theorem Condition.exists_operand_of_bind
    {condition : Condition}
    {comparison : Comparison}
    (known : Comparison.ofToken? condition.operator = some comparison)
    {bound : BoundCondition}
    {session after : Session}
    (ran : outcome condition.bind session = (.ok bound, after)) :
    bound.comparison = comparison ∧
      ∃ middle, outcome condition.operand.bind middle = (.ok bound.operand, after) := by
  simp only [bind, known] at ran
  obtain ⟨_, middle, _, ran⟩ := outcome_bind_eq_ok_iff.mp ran
  obtain ⟨operand, _, operandRan, ran⟩ := outcome_bind_eq_ok_iff.mp ran
  cases ran
  exact ⟨rfl, middle, operandRan⟩

/-! ## Writing -/

namespace BoundCondition

open Sql

/-- The SQL of a bound condition. -/
def sql
    (dialect : Dialect)
    (condition : BoundCondition) : String :=
  Token.textOf dialect ((Predicate.ofCondition dialect condition).tokens dialect)

/-- Conditions with the same SQL have the same texts. -/
theorem texts_eq_of_sql_eq
    {dialect : Dialect}
    {condition other : BoundCondition}
    (takes : condition.operand.Takes)
    (otherTakes : other.operand.Takes)
    (equal : condition.sql dialect = other.sql dialect) :
    condition.operand.texts = other.operand.texts := by
  have scanned : ∀ condition : BoundCondition,
      scan false dialect (condition.sql dialect) =
        some (((Predicate.ofCondition dialect condition).tokens dialect).map
          (Token.spelled false dialect)) :=
    fun condition => scan_textOf (Predicate.scans_tokens _)
  have tokensEqual := scanned condition
  rw [equal, scanned other, Option.some.injEq] at tokensEqual
  have textsEqual := congrArg (List.filterMap Token.text?) tokensEqual
  have textsOf : ∀ {condition : BoundCondition}, condition.operand.Takes →
      ((Predicate.ofCondition dialect condition).tokens dialect).filterMap Token.text? =
        condition.operand.texts := by
    intro condition takes
    rw [Filter.filterMap_text?_eq, Predicate.filter_isQuoted_tokens,
      Predicate.quoted_ofCondition dialect takes, Filter.filterMap_text?_condition]
  rw [Token.filterMap_text?_spelled, Token.filterMap_text?_spelled, textsOf takes,
    textsOf otherTakes] at textsEqual
  exact (Spelling.ofText_injective false dialect).list_map textsEqual.symm

/-- The condition tests membership in a text. -/
def TestsText
    (condition : BoundCondition)
    (text : String) : Prop :=
  condition.comparison.isMembership = true ∧ condition.operand = .literal (.text text)

theorem TestsText.itemized_eq
    {condition : BoundCondition}
    {text : String}
    (testsText : condition.TestsText text) :
    condition.itemized = { condition with operand := .literal (Rule.commaList text) } := by
  rw [itemized, if_pos testsText.1, testsText.2, BoundOperand.itemized]

theorem itemized_eq_self
    {condition : BoundCondition}
    (noText : ∀ text, ¬condition.TestsText text) :
    condition.itemized = condition := by
  rw [itemized]
  split
  · rename_i isMembership
    rw [BoundOperand.itemized.eq_def]
    split
    · rename_i text isText
      exact absurd ⟨isMembership, isText⟩ (noText text)
    · rfl
  · rfl

/-- Membership in a text is the same predicate as membership in the list of this text
alone. -/
theorem TestsText.ofCondition_singleton
    {condition : BoundCondition}
    {text : String}
    (testsText : condition.TestsText text)
    (dialect : Dialect) :
    Predicate.ofCondition dialect
        { condition with operand := .literal (.list [.text text]) } =
      Predicate.ofCondition dialect condition := by
  obtain ⟨column, comparison, operand⟩ := condition
  obtain ⟨isMembership, rfl⟩ := testsText
  cases comparison with
  | within => rfl
  | notWithin => rfl
  | _ => cases isMembership

/-- A dialect writes a condition with its text taken for a list as it writes the
condition exactly when the text is the only entry of its list. -/
theorem sql_itemized_eq_iff
    (dialect : Dialect)
    (condition : BoundCondition) :
    condition.itemized.sql dialect = condition.sql dialect ↔
      ∀ text, condition.TestsText text →
        Rule.commaList text = .list [.text text] := by
  constructor
  · intro equal text testsText
    have isText := testsText.2
    have takes : condition.operand.Takes ∧ condition.itemized.operand.Takes := by
      rw [testsText.itemized_eq, isText]
      exact ⟨trivial, trivial⟩
    have texts := texts_eq_of_sql_eq takes.2 takes.1 equal
    rw [testsText.itemized_eq, isText, BoundOperand.texts, BoundOperand.texts,
      Rule.texts_commaList, Literal.texts] at texts
    rw [Rule.commaList_eq, texts, List.map_singleton]
  · intro single
    by_cases testsSome : ∃ text, condition.TestsText text
    · obtain ⟨text, testsText⟩ := testsSome
      rw [testsText.itemized_eq, single text testsText, sql, sql,
        testsText.ofCondition_singleton]
    · rw [itemized_eq_self (not_exists.mp testsSome)]

end BoundCondition

namespace Condition

/-- A condition with a known operator keeps its field and its comparison in the words of
rules. In every session it is bound as before, with the same error and the same session
left behind, but for a text that is tested for membership, which becomes the list of its
parts between commas. Every dialect writes the two bound conditions alike, unless
membership is tested in a text with a comma or a blank at one of its ends, and then none
does. -/
theorem reworded_binds_and_writes_alike
    {condition : Condition}
    {comparison : Comparison}
    (known : Comparison.ofToken? condition.operator = some comparison) :
    condition.reworded.field = condition.field ∧
    Comparison.ofToken? condition.reworded.operator = some comparison ∧
    ∀ session : Session,
      outcome condition.reworded.bind session =
        ((outcome condition.bind session).1.map BoundCondition.itemized,
          (outcome condition.bind session).2) ∧
      ∀ (bound : BoundCondition) (after : Session),
        outcome condition.bind session = (.ok bound, after) →
        ∀ dialect : Dialect,
          bound.itemized.sql dialect = bound.sql dialect ↔
            (comparison.isMembership = true →
              ∀ text, condition.operand = .literal (.text text) →
                ',' ∉ text.toList ∧ Text.trim text = text) := by
  refine ⟨rfl, (Rule.respelled_of_ofToken? known).1, fun session => ⟨?_, ?_⟩⟩
  · rw [bind_reworded known, outcome_map]
    rcases outcome condition.bind session with ⟨error | bound, after⟩ <;> rfl
  · intro bound after ran dialect
    obtain ⟨comparison_eq, _, operandRan⟩ := exists_operand_of_bind known ran
    simp only [BoundCondition.sql_itemized_eq_iff, BoundCondition.TestsText,
      comparison_eq, Operand.bound_eq_literal_iff operandRan, Rule.commaList_eq_iff,
      and_imp]
    exact forall_comm

/-- A text that is excluded beyond a foreign key comes back as a list, and all dialects
write the two conditions alike. -/
theorem reworded_exclusion_is_written_alike :
    let foreignKeys : ForeignKeys := fun table field =>
      if table = "orders" ∧ field = "partner" then
        some ⟨"partners", "partner_id", "id"⟩
      else none
    let condition : Condition := ⟨"partner.state", "not in", .literal (.text "new")⟩
    let session : Session := .start "orders" foreignKeys
    Comparison.ofToken? condition.operator = some .notWithin ∧
    ∃ (bound : BoundCondition) (after : Session),
      outcome condition.bind session = (.ok bound, after) ∧
      outcome condition.reworded.bind session = (.ok bound.itemized, after) ∧
      bound.itemized.operand = .literal (.list [.text "new"]) ∧
      ∀ dialect : Dialect, bound.itemized.sql dialect = bound.sql dialect := by
  intro foreignKeys condition session
  have known : Comparison.ofToken? condition.operator = some .notWithin := rfl
  obtain ⟨_, _, each⟩ := reworded_binds_and_writes_alike known
  obtain ⟨bindsAlike, writesAlike⟩ := each session
  let bound : BoundCondition :=
    ⟨⟨⟨"partners", "t1"⟩, "state"⟩, .notWithin, .literal (.text "new")⟩
  have computed : (outcome condition.bind session).1.toOption = some bound := by
    decide +kernel
  obtain ⟨after, ran⟩ := exists_state_of_toOption_eq_some computed
  rw [ran] at bindsAlike
  refine ⟨known, bound, after, ran, bindsAlike, by decide +kernel, fun dialect => ?_⟩
  refine (writesAlike bound after ran dialect).mpr fun _ text isText => ?_
  cases isText
  decide +kernel

/-- Membership in a text with a comma is membership in two texts behind the words of
rules. -/
theorem reworded_listing_is_written_otherwise :
    let condition : Condition := ⟨"tags", "in", .literal (.text "a, b")⟩
    let session : Session := .start "posts" fun _ _ => none
    let column : Column := ⟨⟨"posts", "t0"⟩, "tags"⟩
    let bound : BoundCondition := ⟨column, .within, .literal (.text "a, b")⟩
    let rewordedBound : BoundCondition :=
      ⟨column, .within, .literal (.list [.text "a", .text "b"])⟩
    Comparison.ofToken? condition.operator = some .within ∧
    outcome condition.bind session = (.ok bound, session) ∧
    outcome condition.reworded.bind session = (.ok rewordedBound, session) ∧
    bound.sql .postgres = "\"t0\".\"tags\" IN ('a, b')" ∧
    rewordedBound.sql .postgres = "\"t0\".\"tags\" IN ('a', 'b')" ∧
    rewordedBound.sql .postgres ≠ bound.sql .postgres := by
  intro condition session column bound rewordedBound
  have parted : condition.reworded =
      ⟨"tags", "in", .literal (.list [.text "a", .text "b"])⟩ := by decide +kernel
  refine ⟨rfl, ?_, ?_, ?_, ?_, ?_⟩
  · dsimp only [condition, session, bound, column]
    rfl
  · rw [parted]
    dsimp only [session, rewordedBound, column]
    rfl
  · decide +kernel
  · decide +kernel
  · decide +kernel

end Condition

end DomainSql
