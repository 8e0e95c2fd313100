import DomainSql.Join.Hop
import DomainSql.Text.Split
import Mathlib.Data.List.Induction
import Mathlib.Data.List.TakeWhile

/-!
# Keys of paths

A hop is readable when its text describes it again and has no point inside. The key
of readable hops splits at its points into their texts, so that the last hop of a
path is determined by its key, and all its hops are from the first one with a name
on. Hops without a name leave no trace in front of a key.
-/

namespace DomainSql

namespace Text

/-- Splitting splits at a separator. -/
theorem splitWhere_append_cons
    {isSeparator : Char → Bool}
    {separator : Char}
    (separates : isSeparator separator = true)
    (front back : List Char) :
    splitWhere isSeparator (front ++ separator :: back) =
      splitWhere isSeparator front ++ splitWhere isSeparator back := by
  induction front with
  | nil => simp [splitWhere, separates]
  | cons char rest inductionHypothesis =>
      rw [List.cons_append, splitWhere, splitWhere, inductionHypothesis]
      split
      · rfl
      · cases parts : splitWhere isSeparator rest with
        | nil => exact absurd parts (splitWhere_ne_nil _ _)
        | cons part others => rfl

/-- A text without separators is its only part. -/
theorem splitWhere_of_not_separator
    {isSeparator : Char → Bool}
    {chars : List Char}
    (noSeparator : ∀ char ∈ chars, isSeparator char = false) :
    splitWhere isSeparator chars = [chars] := by
  induction chars with
  | nil => rfl
  | cons char rest inductionHypothesis =>
      simp only [List.mem_cons, forall_eq_or_imp] at noSeparator
      rw [splitWhere, inductionHypothesis noSeparator.2, noSeparator.1]
      rfl

theorem split_ne_nil (separator : Char) (text : String) :
    split separator text ≠ [] := by
  simp [split, splitWhere_ne_nil]

/-- No part of a text that is split holds the separator. -/
theorem not_mem_of_mem_split
    {separator : Char}
    {text part : String}
    (inParts : part ∈ split separator text) :
    separator ∉ part.toList := by
  obtain ⟨chars, inChars, rfl⟩ := List.mem_map.mp inParts
  intro inPart
  have separates := not_isSeparator_of_mem_splitWhere inChars separator
    (by simpa using inPart)
  simp at separates

theorem split_of_not_mem
    {separator : Char}
    {text : String}
    (noSeparator : separator ∉ text.toList) :
    split separator text = [text] := by
  rw [split, splitWhere_of_not_separator]
  · simp
  · intro char inText
    simp only [beq_eq_false_iff_ne, ne_eq]
    rintro rfl
    exact noSeparator inText

theorem toList_join_cons_cons
    (separator : Char)
    (part next : String)
    (others : List String) :
    (join separator (part :: next :: others)).toList =
      part.toList ++ separator :: (join separator (next :: others)).toList := by
  simp [join, String.intercalate_cons_cons]

@[simp] theorem join_singleton (separator : Char) (part : String) :
    join separator [part] = part :=
  String.intercalate_singleton

/-- Splitting undoes joining, if no part has the separator inside. -/
theorem split_join
    {separator : Char}
    {parts : List String}
    (nonempty : parts ≠ [])
    (noSeparator : ∀ part ∈ parts, separator ∉ part.toList) :
    split separator (join separator parts) = parts := by
  induction parts with
  | nil => exact absurd rfl nonempty
  | cons part rest inductionHypothesis =>
      simp only [List.mem_cons, forall_eq_or_imp] at noSeparator
      have first := split_of_not_mem noSeparator.1
      cases rest with
      | nil => rwa [join_singleton]
      | cons next others =>
          have back := inductionHypothesis (by simp) noSeparator.2
          rw [split] at first back ⊢
          rw [toList_join_cons_cons, splitWhere_append_cons (by simp), List.map_append,
            first, back]
          rfl

/-- The parts of characters, joined again, are the characters. -/
theorem toList_join_splitWhere
    (separator : Char)
    (chars : List Char) :
    (join separator
      ((splitWhere (· == separator) chars).map String.ofList)).toList = chars := by
  induction chars with
  | nil => simp
  | cons char rest inductionHypothesis =>
      rw [splitWhere]
      cases parts : splitWhere (· == separator) rest with
      | nil => exact absurd parts (splitWhere_ne_nil _ _)
      | cons part others =>
          rw [parts] at inductionHypothesis
          split
          · rename_i separates
            rw [List.map_cons, List.map_cons, toList_join_cons_cons,
              ← List.map_cons, inductionHypothesis]
            simpa using (beq_iff_eq.mp separates).symm
          -- The character goes to the front of the first part, which may be the only one.
          · dsimp only
            cases others with
            | nil => simpa using inductionHypothesis
            | cons next others =>
                rw [List.map_cons, List.map_cons, toList_join_cons_cons]
                  at inductionHypothesis ⊢
                simpa using inductionHypothesis

/-- Joining undoes splitting. -/
theorem join_split
    (separator : Char)
    (text : String) :
    join separator (split separator text) = text :=
  String.toList_inj.mp (toList_join_splitWhere separator text.toList)

/-- Texts with the same parts are the same. -/
theorem split_inj
    {separator : Char}
    {left right : String}
    (same : split separator left = split separator right) :
    left = right := by
  rw [← join_split separator left, same, join_split]

/-- Behind a separator splitting begins anew. -/
theorem split_append_separator
    (separator : Char)
    (front back : String) :
    split separator (front ++ String.singleton separator ++ back) =
      split separator front ++ split separator back := by
  have whole : (front ++ String.singleton separator ++ back).toList =
      front.toList ++ separator :: back.toList := by simp
  rw [split, whole, splitWhere_append_cons (by simp), List.map_append, ← split,
    ← split]

end Text

namespace Hop

/-- What a text without points can describe: the name has no point and no
parenthesis, and only an inner join goes without a name. -/
structure Readable (hop : Hop) : Prop where
  noPoint : '.' ∉ hop.name.toList
  noParenthesis : '(' ∉ hop.name.toList
  nameless_inner : hop.name = "" → hop.kind = .inner

@[simp] theorem point_not_mem_code (kind : JoinKind) :
    '.' ∉ kind.code.toList := by
  cases kind <;> decide

theorem trim_code (kind : JoinKind) : Text.trim kind.code = kind.code := by
  cases kind <;> decide

/-- A hop that a text without points describes is readable. -/
theorem Readable.of_read
    {text : String}
    {hop : Hop}
    (noPoint : '.' ∉ text.toList)
    (read : Hop.read text = .ok hop) :
    hop.Readable := by
  have nameNoPoint : '.' ∉ text.toList.takeWhile (· != '(') :=
    fun inName => noPoint (List.takeWhile_subset _ inName)
  have nameNoParenthesis : '(' ∉ text.toList.takeWhile (· != '(') := by
    intro inName
    simpa using List.mem_takeWhile_imp inName
  rw [Hop.read] at read
  split at read
  · cases read
    exact ⟨by simpa using nameNoPoint, by simpa using nameNoParenthesis,
      fun _ => rfl⟩
  · split at read
    · cases read
    · split at read
      · cases read
      · split at read
        · cases read
        · rename_i named
          cases read
          exact ⟨by simpa using nameNoPoint, by simpa using nameNoParenthesis,
            fun nameless => absurd nameless named⟩

/-- The text of a readable hop describes it. -/
theorem Readable.read_text
    {hop : Hop}
    (readable : hop.Readable) :
    Hop.read hop.text = .ok hop := by
  obtain ⟨name, kind⟩ := hop
  have letters : ∀ char ∈ name.toList, (char != '(') = true := by
    intro char inName
    simp only [bne_iff_ne, ne_eq]
    rintro rfl
    exact readable.noParenthesis inName
  by_cases inner : kind = .inner
  · subst inner
    simp [Hop.read, Hop.text, List.takeWhile_eq_self_iff.mpr letters,
      List.dropWhile_eq_nil_iff.mpr letters]
  · have named : name ≠ "" := fun nameless =>
      inner (readable.nameless_inner nameless)
    have before : (name ++ "(" ++ kind.code ++ ")").toList =
        name.toList ++ '(' :: (kind.code.toList ++ [')']) := by simp
    have code : codeOf? (kind.code.toList ++ [')']) = some kind.code := by
      simp [codeOf?]
    rw [Hop.text, if_neg inner, Hop.read, before,
      List.takeWhile_append_of_pos letters,
      List.dropWhile_append_of_pos letters]
    simp [code, trim_code, named]

/-- The text of a readable hop has no point. -/
theorem Readable.point_not_mem_text
    {hop : Hop}
    (readable : hop.Readable) :
    '.' ∉ hop.text.toList := by
  rw [Hop.text]
  split
  · exact readable.noPoint
  · simp [readable.noPoint]

theorem text_ne_empty
    {hop : Hop}
    (named : hop.name ≠ "") :
    hop.text ≠ "" := by
  rw [Hop.text]
  split
  · exact named
  · simp

/-- A path that goes on with a named hop has a key. -/
theorem extend_ne_empty
    {hop : Hop}
    (named : hop.name ≠ "")
    (key : String) :
    extend key hop ≠ "" := by
  rw [extend]
  split
  · exact text_ne_empty named
  · simp [text_ne_empty named]

/-- Readable hops with the same text are the same. -/
theorem Readable.text_inj
    {left right : Hop}
    (leftReadable : left.Readable)
    (rightReadable : right.Readable)
    (equal : left.text = right.text) :
    left = right := by
  have read := leftReadable.read_text
  rw [equal, rightReadable.read_text, Except.ok.injEq] at read
  exact read.symm

/-- The parts of an extended key are the parts of the key and the text of the
hop. -/
theorem Readable.split_extend
    {hop : Hop}
    (readable : hop.Readable)
    {key : String}
    (nonempty : key ≠ "") :
    Text.split '.' (extend key hop) = Text.split '.' key ++ [hop.text] := by
  rw [extend, if_neg nonempty, ← Text.split_of_not_mem readable.point_not_mem_text]
  exact Text.split_append_separator '.' key hop.text

/-- The last part of an extended key is the text of the hop. -/
theorem Readable.getLast?_split_extend
    {hop : Hop}
    (readable : hop.Readable)
    (key : String) :
    (Text.split '.' (extend key hop)).getLast? = some hop.text := by
  by_cases empty : key = ""
  · rw [extend, if_pos empty, Text.split_of_not_mem readable.point_not_mem_text]
    rfl
  · rw [readable.split_extend empty, List.getLast?_concat]

/-- The last hop of a path is determined by its key. -/
theorem Readable.extend_inj_right
    {left right : Hop}
    (leftReadable : left.Readable)
    (rightReadable : right.Readable)
    {leftKey rightKey : String}
    (equal : extend leftKey left = extend rightKey right) :
    left = right := by
  have leftLast := leftReadable.getLast?_split_extend leftKey
  rw [equal, rightReadable.getLast?_split_extend rightKey,
    Option.some.injEq] at leftLast
  exact leftReadable.text_inj rightReadable leftLast.symm

/-- The texts describe these hops, one each. -/
def ReadAs
    (texts : List String)
    (hops : List Hop) : Prop :=
  texts.map Hop.read = hops.map .ok

theorem readAs_map_text
    {hops : List Hop}
    (readable : ∀ hop ∈ hops, hop.Readable) :
    ReadAs (hops.map text) hops := by
  rw [ReadAs, List.map_map]
  exact List.map_congr_left fun hop inHops => (readable hop inHops).read_text

theorem ReadAs.unique
    {texts : List String}
    {hops others : List Hop}
    (read : ReadAs texts hops)
    (otherRead : ReadAs texts others) :
    hops = others :=
  (List.map_inj_right fun _ _ => Except.ok.inj).mp (read.symm.trans otherRead)

end Hop

/-- The key of a path with these hops. -/
def keyOf (hops : List Hop) : String := hops.foldl Hop.extend ""

@[simp] theorem keyOf_nil : keyOf [] = "" := rfl

@[simp] theorem keyOf_concat
    (hops : List Hop)
    (hop : Hop) :
    keyOf (hops ++ [hop]) = Hop.extend (keyOf hops) hop := by
  simp [keyOf]

namespace Hop

/-- The hops of a path from the first one with a name on. -/
def trail (hops : List Hop) : List Hop :=
  hops.dropWhile fun hop => hop.name = ""

theorem trail_cons_of_nameless
    {hop : Hop}
    (nameless : hop.name = "")
    (hops : List Hop) :
    trail (hop :: hops) = trail hops := by
  simp [trail, nameless]

theorem trail_cons_of_named
    {hop : Hop}
    (named : hop.name ≠ "")
    (hops : List Hop) :
    trail (hop :: hops) = hop :: hops := by
  simp [trail, named]

theorem mem_of_mem_trail
    {hop : Hop}
    {hops : List Hop}
    (inTrail : hop ∈ trail hops) :
    hop ∈ hops :=
  (List.dropWhile_suffix _).subset inTrail

/-- A trail has no hops, or its first one has a name. -/
theorem trail_eq_nil_or_cons (hops : List Hop) :
    trail hops = [] ∨
      ∃ first rest, trail hops = first :: rest ∧ first.name ≠ "" := by
  induction hops with
  | nil => exact .inl rfl
  | cons hop rest inductionHypothesis =>
      by_cases nameless : hop.name = ""
      · rwa [trail_cons_of_nameless nameless]
      · exact .inr ⟨hop, rest, trail_cons_of_named nameless rest, nameless⟩

end Hop

/-- Hops without a name leave no trace in front of a key. -/
theorem keyOf_trail
    {hops : List Hop}
    (readable : ∀ hop ∈ hops, hop.Readable) :
    keyOf (Hop.trail hops) = keyOf hops := by
  induction hops with
  | nil => rfl
  | cons hop rest inductionHypothesis =>
      simp only [List.mem_cons, forall_eq_or_imp] at readable
      by_cases nameless : hop.name = ""
      · have noText : hop.text = "" := by
          simp [Hop.text, readable.1.nameless_inner nameless, nameless]
        have noTrace : keyOf (hop :: rest) = keyOf rest := by
          simp [keyOf, Hop.extend, noText]
        rw [Hop.trail_cons_of_nameless nameless, noTrace,
          inductionHypothesis readable.2]
      · rw [Hop.trail_cons_of_named nameless]

/-- A path whose first hop has a name has a key. -/
theorem keyOf_cons_ne_empty
    {first : Hop}
    (named : first.name ≠ "")
    (rest : List Hop) :
    keyOf (first :: rest) ≠ "" := by
  induction rest using List.reverseRecOn with
  | nil => exact Hop.extend_ne_empty named ""
  | append_singleton rest hop inductionHypothesis =>
      rw [← List.cons_append, keyOf_concat, Hop.extend,
        if_neg inductionHypothesis]
      simp

/-- The key of a path whose first hop has a name has the texts of its hops for its
parts. -/
theorem split_keyOf_cons
    {first : Hop}
    {rest : List Hop}
    (readable : ∀ hop ∈ first :: rest, hop.Readable)
    (named : first.name ≠ "") :
    Text.split '.' (keyOf (first :: rest)) = (first :: rest).map Hop.text := by
  induction rest using List.reverseRecOn with
  | nil =>
      have keyed : keyOf [first] = first.text := by simp [keyOf, Hop.extend]
      rw [keyed, Text.split_of_not_mem
        (readable first List.mem_cons_self).point_not_mem_text]
      rfl
  | append_singleton rest hop inductionHypothesis =>
      have last : hop.Readable := readable hop (by simp)
      rw [← List.cons_append, keyOf_concat,
        last.split_extend (keyOf_cons_ne_empty named rest),
        inductionHypothesis fun other inFront =>
          readable other (List.mem_append_left [hop] inFront)]
      simp

/-- The key of a path whose hops have names has their texts for its parts. -/
theorem split_keyOf
    {hops : List Hop}
    (nonempty : hops ≠ [])
    (readable : ∀ hop ∈ hops, hop.Readable)
    (named : ∀ hop ∈ hops, hop.name ≠ "") :
    Text.split '.' (keyOf hops) = hops.map Hop.text := by
  obtain ⟨first, rest, rfl⟩ := List.exists_cons_of_ne_nil nonempty
  exact split_keyOf_cons readable (named first List.mem_cons_self)

/-- Paths have one key exactly when they differ only in hops without a name in
front. -/
theorem keyOf_eq_iff
    {left right : List Hop}
    (leftReadable : ∀ hop ∈ left, hop.Readable)
    (rightReadable : ∀ hop ∈ right, hop.Readable) :
    keyOf left = keyOf right ↔ Hop.trail left = Hop.trail right := by
  have leftTrail : ∀ hop ∈ Hop.trail left, hop.Readable := fun hop inTrail =>
    leftReadable hop (Hop.mem_of_mem_trail inTrail)
  have rightTrail : ∀ hop ∈ Hop.trail right, hop.Readable := fun hop inTrail =>
    rightReadable hop (Hop.mem_of_mem_trail inTrail)
  rw [← keyOf_trail leftReadable, ← keyOf_trail rightReadable]
  constructor
  · intro equal
    rcases Hop.trail_eq_nil_or_cons left with
      leftNil | ⟨leftFirst, leftRest, leftCons, leftNamed⟩ <;>
    rcases Hop.trail_eq_nil_or_cons right with
      rightNil | ⟨rightFirst, rightRest, rightCons, rightNamed⟩
    · rw [leftNil, rightNil]
    · rw [leftNil, rightCons] at equal
      exact absurd equal.symm (keyOf_cons_ne_empty rightNamed rightRest)
    · rw [leftCons, rightNil] at equal
      exact absurd equal (keyOf_cons_ne_empty leftNamed leftRest)
    · rw [leftCons] at leftTrail equal ⊢
      rw [rightCons] at rightTrail equal ⊢
      have texts := split_keyOf_cons leftTrail leftNamed
      rw [equal, split_keyOf_cons rightTrail rightNamed] at texts
      have read := Hop.readAs_map_text leftTrail
      rw [← texts] at read
      exact read.unique (Hop.readAs_map_text rightTrail)
  · intro same
    rw [same]

/-- Paths whose hops have names have different keys. -/
theorem keyOf_inj
    {left right : List Hop}
    (leftReadable : ∀ hop ∈ left, hop.Readable)
    (rightReadable : ∀ hop ∈ right, hop.Readable)
    (leftNamed : ∀ hop ∈ left, hop.name ≠ "")
    (rightNamed : ∀ hop ∈ right, hop.name ≠ "")
    (equal : keyOf left = keyOf right) :
    left = right := by
  have allNamed : ∀ hops : List Hop, (∀ hop ∈ hops, hop.name ≠ "") →
      Hop.trail hops = hops := by
    intro hops named
    cases hops with
    | nil => rfl
    | cons first rest =>
        exact Hop.trail_cons_of_named (named first List.mem_cons_self) rest
  rw [← allNamed left leftNamed, ← allNamed right rightNamed]
  exact (keyOf_eq_iff leftReadable rightReadable).mp equal

end DomainSql
