import DomainSql.Proofs.TruthValues

/-!
# Reading a condition

The text of a condition consists of predicates, each taken as a whole, and of the
words and parentheses around them. A reader of SQL goes by a grammar of four levels:
parentheses bind first, then "not", then "and", then "or", and repeated "and" and
"or" group to the left.

A test is written so that it is read back: the grammar derives the test from its
marks, and derives no other one. For the second half the marks are taken up one by
one, with a frame for every parenthesis that is open. Whatever the grammar derives
is what the frames hold at the end, so it depends on the marks alone.
-/

namespace DomainSql
namespace Sql

/-- A piece of a condition, in which a predicate is one piece. -/
inductive Mark
  | atom (predicate : Predicate)
  | constant (value : Bool)
  | between (junction : Junction)
  | not
  | opening
  | closing

namespace Mark

/-- The tokens of a mark, with the spaces that belong to it. -/
def tokens (dialect : Dialect) : Mark → List Token
  | .atom predicate => predicate.tokens dialect
  | .constant true => [.word "TRUE"]
  | .constant false => [.word "FALSE"]
  | .between junction => [.space, .word (Test.junctionWord junction), .space]
  | .not => [.word "NOT", .space]
  | .opening => [.symbol "("]
  | .closing => [.symbol ")"]

/-- The predicate of a mark. -/
def atom? : Mark → Option Predicate
  | .atom predicate => some predicate
  | _ => none

/-- The predicates of marks, in their order. -/
def atoms (marks : List Mark) : List Predicate :=
  marks.filterMap atom?

@[simp] theorem atoms_nil : atoms [] = [] := rfl

@[simp] theorem atoms_cons
    (mark : Mark)
    (rest : List Mark) :
    atoms (mark :: rest) = mark.atom?.toList ++ atoms rest := by
  cases mark <;> rfl

@[simp] theorem atoms_append
    (left right : List Mark) :
    atoms (left ++ right) = atoms left ++ atoms right :=
  List.filterMap_append

end Mark

/-- The levels of the grammar of conditions, from the loosest to the tightest. -/
inductive Level
  | disjunction
  | conjunction
  | negation
  | primary

/-- The grammar of conditions: marks on a level are read as a test. -/
inductive Reads : Level → List Mark → Test → Prop
  | atom (predicate : Predicate) :
      Reads .primary [.atom predicate] (.predicate predicate)
  | constant (value : Bool) :
      Reads .primary [.constant value] (.truth value)
  | enclosed
      {marks : List Mark}
      {test : Test}
      (inside : Reads .disjunction marks test) :
      Reads .primary (.opening :: marks ++ [.closing]) test
  | ofPrimary
      {marks : List Mark}
      {test : Test}
      (primary : Reads .primary marks test) :
      Reads .negation marks test
  | not
      {marks : List Mark}
      {test : Test}
      (negation : Reads .negation marks test) :
      Reads .negation (.not :: marks) (.not test)
  | ofNegation
      {marks : List Mark}
      {test : Test}
      (negation : Reads .negation marks test) :
      Reads .conjunction marks test
  | all
      {leftMarks rightMarks : List Mark}
      {left right : Test}
      (conjunction : Reads .conjunction leftMarks left)
      (negation : Reads .negation rightMarks right) :
      Reads .conjunction (leftMarks ++ .between .all :: rightMarks)
        (.combine .all left right)
  | ofConjunction
      {marks : List Mark}
      {test : Test}
      (conjunction : Reads .conjunction marks test) :
      Reads .disjunction marks test
  | any
      {leftMarks rightMarks : List Mark}
      {left right : Test}
      (disjunction : Reads .disjunction leftMarks left)
      (conjunction : Reads .conjunction rightMarks right) :
      Reads .disjunction (leftMarks ++ .between .any :: rightMarks)
        (.combine .any left right)

namespace Reads

variable {level : Level} {marks : List Mark} {test : Test}

/-- What is read on the tightest level is read on every level. -/
theorem loosened
    (reads : Reads .primary marks test) :
    Reads level marks test := by
  cases level with
  | primary => exact reads
  | negation => exact .ofPrimary reads
  | conjunction => exact .ofNegation (.ofPrimary reads)
  | disjunction => exact .ofConjunction (.ofNegation (.ofPrimary reads))

/-- What is read on any level is read on the loosest level. -/
theorem loosest
    (reads : Reads level marks test) :
    Reads .disjunction marks test := by
  cases level with
  | primary => exact reads.loosened
  | negation => exact .ofConjunction (.ofNegation reads)
  | conjunction => exact .ofConjunction reads
  | disjunction => exact reads

/-- A reading has the predicates of its marks, in their order. -/
theorem atoms_eq
    (reads : Reads level marks test) :
    Mark.atoms marks = test.predicates := by
  induction reads with
  | atom predicate => rfl
  | constant value => rfl
  | enclosed _ inside => simpa [Mark.atom?] using inside
  | ofPrimary _ same => exact same
  | not _ inner => simpa [Mark.atom?, Test.predicates] using inner
  | ofNegation _ same => exact same
  | all _ _ left right => simp [Mark.atom?, Test.predicates, left, right]
  | ofConjunction _ same => exact same
  | any _ _ left right => simp [Mark.atom?, Test.predicates, left, right]

end Reads

/-! ## Marks determine their reading -/

/-- What has been read behind an open parenthesis: the test in front of the last
"or", the test behind it, and the number of "not" that wait for their test. -/
structure Frame where
  disjuncts : Option Test
  conjuncts : Option Test
  negations : Nat

namespace Frame

/-- Nothing has been read. -/
def start : Frame := ⟨none, none, 0⟩

/-- A test behind what stands in front of it. -/
def joined
    (junction : Junction) : Option Test → Test → Test
  | none, test => test
  | some left, test => .combine junction left test

/-- A test behind some number of "not". -/
def negated : Nat → Test → Test
  | 0, test => test
  | count + 1, test => negated count (.not test)

/-- Take up a test that stands on the tightest level. -/
def add
    (frame : Frame)
    (test : Test) : Frame where
  disjuncts := frame.disjuncts
  conjuncts := some (joined .all frame.conjuncts (negated frame.negations test))
  negations := 0

/-- The test of all that has been read. -/
def test? (frame : Frame) : Option Test :=
  frame.conjuncts.map (joined .any frame.disjuncts)

/-- Take up a mark, with the innermost open parenthesis in front. Whether a mark is
at its place is not checked. -/
def step : List Frame → Mark → List Frame
  | frame :: outer, .atom predicate => frame.add (.predicate predicate) :: outer
  | frame :: outer, .constant value => frame.add (.truth value) :: outer
  | frame :: outer, .between .any => ⟨frame.test?, none, 0⟩ :: outer
  | frame :: outer, .not =>
      ⟨frame.disjuncts, frame.conjuncts, frame.negations + 1⟩ :: outer
  | inner :: frame :: outer, .closing => (inner.test?.elim frame frame.add) :: outer
  | frames, .opening => start :: frames
  | frames, _ => frames

/-- What taking up the marks of a test does on each level to the innermost
frame. -/
def TakesUp : Level → List Mark → Test → Prop
  | .primary, marks, test | .negation, marks, test =>
      ∀ frame outer,
        marks.foldl step (frame :: outer) = frame.add test :: outer
  | .conjunction, marks, test =>
      ∀ disjuncts outer,
        marks.foldl step (⟨disjuncts, none, 0⟩ :: outer) =
          ⟨disjuncts, some test, 0⟩ :: outer
  | .disjunction, marks, test =>
      ∀ outer, ∃ frame : Frame,
        marks.foldl step (start :: outer) = frame :: outer ∧
          frame.test? = some test

end Frame

namespace Reads

variable {level : Level} {marks : List Mark} {test other : Test}

/-- The frames follow the grammar. -/
theorem takesUp
    (reads : Reads level marks test) :
    Frame.TakesUp level marks test := by
  induction reads with
  | atom predicate => exact fun frame outer => rfl
  | constant value => exact fun frame outer => rfl
  | @enclosed marks test _ inside =>
      intro frame outer
      obtain ⟨inner, taken, innerTest⟩ := inside (frame :: outer)
      calc
        (.opening :: marks ++ [Mark.closing]).foldl Frame.step (frame :: outer)
          = Frame.step (marks.foldl Frame.step (.start :: frame :: outer))
              Mark.closing := by
            rw [List.foldl_append, List.foldl_cons]
            rfl
        _ = Frame.step (inner :: frame :: outer) .closing := by rw [taken]
        _ = frame.add test :: outer := by simp [Frame.step, innerTest]
  | ofPrimary _ same => exact same
  | not _ inner =>
      intro frame outer
      exact inner ⟨frame.disjuncts, frame.conjuncts, frame.negations + 1⟩ outer
  | ofNegation _ same =>
      intro disjuncts outer
      exact same ⟨disjuncts, none, 0⟩ outer
  | @all leftMarks rightMarks left right _ _ leftTaken rightTaken =>
      intro disjuncts outer
      rw [List.foldl_append, leftTaken]
      exact rightTaken ⟨disjuncts, some left, 0⟩ outer
  | @ofConjunction marks test _ same =>
      intro outer
      exact ⟨⟨none, some test, 0⟩, same none outer, rfl⟩
  | @any leftMarks rightMarks left right _ _ leftTaken rightTaken =>
      intro outer
      obtain ⟨frame, taken, frameTest⟩ := leftTaken outer
      refine ⟨⟨some left, some right, 0⟩, ?_, rfl⟩
      rw [List.foldl_append, taken, List.foldl_cons, Frame.step, frameTest]
      exact rightTaken (some left) outer

/-- Marks are read in one way at most. -/
theorem unique
    (reads : Reads .disjunction marks test)
    (readsOther : Reads .disjunction marks other) :
    other = test := by
  obtain ⟨frame, taken, frameTest⟩ := reads.takesUp []
  obtain ⟨otherFrame, otherTaken, otherTest⟩ := readsOther.takesUp []
  obtain rfl : frame = otherFrame :=
    (List.cons.inj (taken.symm.trans otherTaken)).1
  exact Option.some.inj (otherTest.symm.trans frameTest)

end Reads

/-! ## Tests are read back -/

namespace Test

/-- Marks, between parentheses unless they are bare. -/
def enclosedMarks
    (bare : Bool)
    (marks : List Mark) : List Mark :=
  if bare then marks else .opening :: marks ++ [.closing]

/-- The marks of a test. -/
def marks : Test → List Mark
  | .truth value => [.constant value]
  | .predicate inner => [.atom inner]
  | .combine junction left right =>
      enclosedMarks (left.isBare || left.combinesBy junction) left.marks
        ++ .between junction :: enclosedMarks right.isBare right.marks
  | .not inner => .not :: enclosedMarks inner.isBare inner.marks

/-- The tightest level of a test. -/
def level : Test → Level
  | .truth _ => .primary
  | .predicate _ => .primary
  | .combine .all _ _ => .conjunction
  | .combine .any _ _ => .disjunction
  | .not _ => .negation

theorem flatMap_tokens_enclosedMarks
    (dialect : Dialect)
    (bare : Bool)
    (marks : List Mark) :
    (enclosedMarks bare marks).flatMap (Mark.tokens dialect) =
      enclosed bare (marks.flatMap (Mark.tokens dialect)) := by
  cases bare <;>
    simp [enclosedMarks, enclosed, Token.parenthesized, Mark.tokens]

/-- The text of a test is that of its marks. -/
theorem tokens_eq_flatMap_marks
    (dialect : Dialect)
    (test : Test) :
    test.tokens dialect = test.marks.flatMap (Mark.tokens dialect) := by
  induction test with
  | truth value => cases value <;> rfl
  | predicate inner => simp [tokens, marks, Mark.tokens]
  | combine junction left right leftTokens rightTokens =>
      simp [tokens, marks, Mark.tokens, flatMap_tokens_enclosedMarks, leftTokens,
        rightTokens]
  | not inner innerTokens =>
      simp [tokens, marks, Mark.tokens, flatMap_tokens_enclosedMarks, innerTokens]

theorem level_of_isBare
    {test : Test}
    (bare : test.isBare = true) :
    test.level = .primary := by
  cases test <;> simp_all [isBare, level]

/-- Parentheses bring the marks of a test to the tightest level, and tests that go
without are there already. -/
theorem reads_enclosedMarks
    {test : Test}
    (reads : Reads test.level test.marks test) :
    Reads .primary (enclosedMarks test.isBare test.marks) test := by
  cases bare : test.isBare with
  | false => exact .enclosed reads.loosest
  | true => exact level_of_isBare bare ▸ reads

theorem eq_combine_of_combinesBy
    {junction : Junction}
    {test : Test}
    (combined : test.combinesBy junction = true) :
    ∃ left right, test = .combine junction left right := by
  cases test with
  | truth _ => cases combined
  | predicate _ => cases combined
  | combine other left right =>
      obtain rfl : other = junction := by simpa [combinesBy] using combined
      exact ⟨left, right, rfl⟩
  | not _ => cases combined

/-- The left side of a junction goes without parentheses also if it is combined by
the same junction, since repeated junctions group to the left. -/
theorem reads_leftMarks
    {test : Test}
    (reads : Reads test.level test.marks test)
    (junction : Junction)
    (right : Test) :
    Reads (combine junction test right).level
      (enclosedMarks (test.isBare || test.combinesBy junction) test.marks)
      test := by
  cases combined : test.combinesBy junction with
  | false =>
      rw [Bool.or_false]
      exact (reads_enclosedMarks reads).loosened
  | true =>
      rw [Bool.or_true]
      obtain ⟨first, second, rfl⟩ := eq_combine_of_combinesBy combined
      cases junction <;> exact reads

/-- The marks of a test are read as the test. -/
theorem reads_marks (test : Test) : Reads test.level test.marks test := by
  induction test with
  | truth value => exact .constant value
  | predicate inner => exact .atom inner
  | combine junction left right leftReads rightReads =>
      have leftSide := reads_leftMarks leftReads junction right
      have rightSide := reads_enclosedMarks rightReads
      cases junction with
      | all => exact .all leftSide rightSide.loosened
      | any => exact .any leftSide rightSide.loosened
  | not inner innerReads => exact .not (reads_enclosedMarks innerReads).loosened

/-- The marks of a test are read as the test alone. -/
theorem reads_marks_iff
    {test other : Test} :
    Reads .disjunction test.marks other ↔ other = test := by
  constructor
  · exact test.reads_marks.loosest.unique
  · rintro rfl
    exact other.reads_marks.loosest

end Test
end Sql
end DomainSql
