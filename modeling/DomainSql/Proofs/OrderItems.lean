import DomainSql.Proofs.PathKeys
import DomainSql.Query.Order

/-!
# Reading order items

An order item is read from its end, and the words at its end may be names of columns
too. The segments of every item are those of a path and of what follows it, in exactly
one way in which the path does not end in a word that would be taken off it. Reading
finds this path, and fails when the path has no segment or an empty one.
-/

namespace DomainSql

/-! ## Words -/

/-- The segment that names a direction. -/
def Sql.Direction.segment : Sql.Direction → String
  | .ascending => "asc"
  | .descending => "desc"

/-- The segment that names a place of nulls. -/
def Sql.NullPlace.segment : Sql.NullPlace → String
  | .first => "nulls_first"
  | .last => "nulls_last"

namespace OrderItem

theorem direction?_eq_some_iff
    (segment : String)
    (direction : Sql.Direction) :
    direction? segment = some direction ↔ direction.segment = segment := by
  cases direction <;> grind [direction?, Sql.Direction.segment]

theorem nullPlace?_eq_some_iff
    (segment : String)
    (place : Sql.NullPlace) :
    nullPlace? segment = some place ↔ place.segment = segment := by
  cases place <;> grind [nullPlace?, Sql.NullPlace.segment]

/-- What may follow a path: the segments of a direction and of a place of nulls. -/
def suffix
    (direction : Option Sql.Direction)
    (nulls : Option Sql.NullPlace) : List String :=
  (direction.map Sql.Direction.segment).toList ++
    (nulls.map Sql.NullPlace.segment).toList

/-- A path and what follows it, with points between them. -/
def written
    (path : String)
    (direction : Option Sql.Direction)
    (nulls : Option Sql.NullPlace) : String :=
  Text.join '.' (path :: suffix direction nulls)

/-- The end of a path is not taken for what follows it: if no direction does, the path
does not end in one, and if nothing does, it does not end in a place of nulls. -/
structure Unmistakable
    (path : List String)
    (direction : Option Sql.Direction)
    (nulls : Option Sql.NullPlace) : Prop where
  noDirection : direction = none →
    ∀ other : Sql.Direction, path.getLast? ≠ some other.segment
  noNulls : direction = none → nulls = none →
    ∀ other : Sql.NullPlace, path.getLast? ≠ some other.segment

theorem suffix_inj_left
    {left right : Option Sql.Direction}
    {nulls : Option Sql.NullPlace}
    (same : suffix left nulls = suffix right nulls) :
    left = right := by
  have segments := List.append_cancel_right same
  match left, right with
  | none, none => rfl
  | none, some _ => cases segments
  | some _, none => cases segments
  | some first, some second =>
      have found : direction? first.segment = some second :=
        (direction?_eq_some_iff _ _).mpr (List.singleton_inj.mp segments).symm
      rw [(direction?_eq_some_iff _ _).mpr rfl] at found
      exact found

/-- No word that follows a path has a point. -/
theorem point_not_mem_of_mem_suffix
    {direction : Option Sql.Direction}
    {nulls : Option Sql.NullPlace}
    {segment : String}
    (inSuffix : segment ∈ suffix direction nulls) :
    '.' ∉ segment.toList := by
  rcases List.mem_append.mp inSuffix with isDirection | isPlace
  · obtain ⟨direction, _, rfl⟩ :=
      Option.map_eq_some_iff.mp (Option.mem_toList.mp isDirection)
    cases direction <;> decide
  · obtain ⟨place, _, rfl⟩ := Option.map_eq_some_iff.mp (Option.mem_toList.mp isPlace)
    cases place <;> decide

/-- The segments of a path and what follows it. -/
theorem split_written
    (path : String)
    (direction : Option Sql.Direction)
    (nulls : Option Sql.NullPlace) :
    Text.split '.' (written path direction nulls) =
      Text.split '.' path ++ suffix direction nulls := by
  rw [written]
  cases words : suffix direction nulls with
  | nil => rw [Text.join_singleton, List.append_nil]
  | cons word others =>
      have noPoint : ∀ other ∈ word :: others, '.' ∉ other.toList := fun other inWords =>
        point_not_mem_of_mem_suffix (words ▸ inWords)
      have joined : Text.join '.' (path :: word :: others) =
          path ++ String.singleton '.' ++ Text.join '.' (word :: others) :=
        String.toList_inj.mp (by simp [Text.toList_join_cons_cons])
      rw [joined, Text.split_append_separator, Text.split_join (by simp) noPoint]

/-- No direction is called like a place of nulls. -/
theorem direction_segment_ne
    (direction : Sql.Direction)
    (place : Sql.NullPlace) :
    direction.segment ≠ place.segment := by
  cases direction <;> cases place <;> decide

/-! ## Taking off the last segment -/

section TakingOff

variable {Named : Type} {named? : String → Option Named} {segmentOf : Named → String}

/-- A last segment that names something is taken off. -/
theorem takeLast_concat
    (names : ∀ segment found, named? segment = some found ↔ segmentOf found = segment)
    (front : List String)
    (found : Named) :
    takeLast named? (front ++ [segmentOf found]) = (some found, front) := by
  have named := (names (segmentOf found) found).mpr rfl
  simp [takeLast, named]

/-- A last segment that names nothing stays. -/
theorem takeLast_of_unnamed
    (names : ∀ segment found, named? segment = some found ↔ segmentOf found = segment)
    {segments : List String}
    (unnamed : ∀ found, segments.getLast? ≠ some (segmentOf found)) :
    takeLast named? segments = (none, segments) := by
  have none_named : segments.getLast?.bind named? = none := by
    rw [Option.eq_none_iff_forall_ne_some]
    intro found isNamed
    obtain ⟨last, ends, named⟩ := Option.bind_eq_some_iff.mp isNamed
    exact unnamed found (ends.trans (congrArg some ((names _ _).mp named).symm))
  rw [takeLast, none_named]

/-- The last segment names something, or it does not. -/
theorem exists_concat_or_unnamed
    (segmentOf : Named → String)
    (segments : List String) :
    (∃ front found, segments = front ++ [segmentOf found]) ∨
      ∀ found, segments.getLast? ≠ some (segmentOf found) := by
  rw [or_iff_not_imp_right]
  intro named
  push Not at named
  obtain ⟨found, ends⟩ := named
  obtain ⟨front, rfl⟩ := List.getLast?_eq_some_iff.mp ends
  exact ⟨front, found, rfl⟩

end TakingOff

/-- Every list of segments is that of a path whose end is not mistaken, and of what
follows it. -/
theorem exists_unmistakable (segments : List String) :
    ∃ path direction nulls,
      segments = path ++ suffix direction nulls ∧ Unmistakable path direction nulls := by
  -- What is taken off depends on the last segment, and behind a place of nulls on the
  -- last segment but one.
  rcases exists_concat_or_unnamed Sql.NullPlace.segment segments with
    ⟨front, place, rfl⟩ | noPlace
  · rcases exists_concat_or_unnamed Sql.Direction.segment front with
      ⟨path, direction, rfl⟩ | noDirection
    · exact ⟨path, some direction, some place, by simp [suffix], nofun, nofun⟩
    · exact ⟨front, none, some place, rfl, fun _ => noDirection, nofun⟩
  · rcases exists_concat_or_unnamed Sql.Direction.segment segments with
      ⟨path, direction, rfl⟩ | noDirection
    · exact ⟨path, some direction, none, rfl, nofun, nofun⟩
    · exact ⟨segments, none, none, by simp [suffix], fun _ => noDirection,
        fun _ _ => noPlace⟩

/-! ## Reading -/

/-- What follows a path whose end is not mistaken is taken off. -/
theorem Unmistakable.takeLast_eq
    {path : List String}
    {direction : Option Sql.Direction}
    {nulls : Option Sql.NullPlace}
    (unmistakable : Unmistakable path direction nulls) :
    takeLast nullPlace? (path ++ suffix direction nulls) =
        (nulls, path ++ (direction.map Sql.Direction.segment).toList) ∧
      takeLast direction? (path ++ (direction.map Sql.Direction.segment).toList) =
        (direction, path) := by
  constructor
  · cases nulls with
    | some place =>
        rw [suffix, ← List.append_assoc]
        exact takeLast_concat nullPlace?_eq_some_iff _ place
    | none =>
        rw [suffix, Option.map_none, Option.toList_none, List.append_nil]
        apply takeLast_of_unnamed nullPlace?_eq_some_iff
        intro place ends
        cases direction with
        | some direction =>
            exact direction_segment_ne direction place (by simpa using ends)
        | none => exact unmistakable.noNulls rfl rfl place (by simpa using ends)
  · cases direction with
    | some direction => exact takeLast_concat direction?_eq_some_iff path direction
    | none =>
        rw [Option.map_none, Option.toList_none, List.append_nil]
        exact takeLast_of_unnamed direction?_eq_some_iff (unmistakable.noDirection rfl)

/-- An item is read as its path and what follows it, if the path has a segment and no
empty one. -/
theorem Unmistakable.read_eq
    {item : String}
    {path : List String}
    {direction : Option Sql.Direction}
    {nulls : Option Sql.NullPlace}
    (unmistakable : Unmistakable path direction nulls)
    (segments : Text.split '.' item = path ++ suffix direction nulls) :
    read item =
      if path = [] ∨ "" ∈ path then .error (.notOrder item)
      else .ok ⟨Text.join '.' path, direction.getD .ascending, nulls⟩ := by
  have isEmpty_iff : (path.isEmpty || path.any String.isEmpty) = true ↔
      path = [] ∨ "" ∈ path := by
    simp
  rw [read, segments, unmistakable.takeLast_eq.1]
  dsimp only
  rw [unmistakable.takeLast_eq.2]
  simp only [isEmpty_iff]

/-- The segments of an item that is read are those of its path, which has no empty one
and whose end is not mistaken, and of what follows it. -/
theorem exists_direction_of_read
    {item : String}
    {order : OrderItem}
    (done : read item = .ok order) :
    ∃ direction,
      Text.split '.' item = Text.split '.' order.path ++ suffix direction order.nulls ∧
      Unmistakable (Text.split '.' order.path) direction order.nulls ∧
      "" ∉ Text.split '.' order.path ∧
      order.direction = direction.getD .ascending := by
  obtain ⟨path, direction, nulls, segments, unmistakable⟩ :=
    exists_unmistakable (Text.split '.' item)
  rw [unmistakable.read_eq segments] at done
  split at done
  · cases done
  · rename_i proper
    obtain ⟨nonempty, noEmpty⟩ := not_or.mp proper
    cases done
    have noPoint : ∀ segment ∈ path, '.' ∉ segment.toList := fun segment inPath =>
      Text.not_mem_of_mem_split (segments ▸ List.mem_append_left _ inPath)
    have back : Text.split '.' (Text.join '.' path) = path :=
      Text.split_join nonempty noPoint
    dsimp only
    rw [back]
    exact ⟨direction, segments, unmistakable, noEmpty, rfl⟩

/-- A path without empty segments and what follows it are read back exactly when the end
of the path is not taken for what follows it. Every item that is read is its path,
followed by a direction at most and then by a place of nulls at most; without a direction
it is ascending. Reading fails exactly when the path that is left behind what is taken
off has no segment or an empty one. -/
theorem items_are_read_as_path_and_suffix :
    (∀ path direction nulls, "" ∉ Text.split '.' path →
      (read (written path direction nulls) =
          .ok ⟨path, direction.getD .ascending, nulls⟩ ↔
        Unmistakable (Text.split '.' path) direction nulls)) ∧
    (∀ item order, read item = .ok order →
      "" ∉ Text.split '.' order.path ∧
      ∃ direction, item = written order.path direction order.nulls ∧
        order.direction = direction.getD .ascending) ∧
    ∀ item error, read item = .error error ↔
      error = .notOrder item ∧
      ∃ path direction nulls,
        Text.split '.' item = path ++ suffix direction nulls ∧
        Unmistakable path direction nulls ∧
        (path = [] ∨ "" ∈ path) := by
  refine ⟨?_, ?_, ?_⟩
  · intro path direction nulls noEmpty
    constructor
    · intro done
      obtain ⟨found, segments, unmistakable, _⟩ := exists_direction_of_read done
      rw [split_written] at segments
      rwa [suffix_inj_left (List.append_cancel_left segments)]
    · intro unmistakable
      rw [unmistakable.read_eq (split_written path direction nulls),
        if_neg (not_or.mpr ⟨Text.split_ne_nil '.' path, noEmpty⟩), Text.join_split]
  · intro item order done
    obtain ⟨direction, segments, _, noEmpty, direction_eq⟩ :=
      exists_direction_of_read done
    rw [← split_written] at segments
    exact ⟨noEmpty, direction, Text.split_inj segments, direction_eq⟩
  · intro item error
    constructor
    · intro failed
      obtain ⟨path, direction, nulls, segments, unmistakable⟩ :=
        exists_unmistakable (Text.split '.' item)
      rw [unmistakable.read_eq segments] at failed
      split at failed
      · rename_i improper
        cases failed
        exact ⟨rfl, path, direction, nulls, segments, unmistakable, improper⟩
      · cases failed
    · rintro ⟨rfl, path, direction, nulls, segments, unmistakable, improper⟩
      rw [unmistakable.read_eq segments, if_pos improper]

/-- A column that is called like a place of nulls is read back in front of a direction,
and what is read is all of the item. Without a direction the column is not read back, and
an item without a path is not read. -/
theorem column_called_nulls_last_is_read_back :
    read "shop.nulls_last.desc" = .ok ⟨"shop.nulls_last", .descending, none⟩ ∧
    (∃ direction, "shop.nulls_last.desc" = written "shop.nulls_last" direction none ∧
      Sql.Direction.descending = direction.getD .ascending) ∧
    read "shop.nulls_last" ≠ .ok ⟨"shop.nulls_last", .ascending, none⟩ ∧
    read "desc.nulls_first" = .error (.notOrder "desc.nulls_first") := by
  obtain ⟨readBack, isWritten, fails⟩ := items_are_read_as_path_and_suffix
  have segments : Text.split '.' "shop.nulls_last" = ["shop", "nulls_last"] := by
    decide +kernel
  have noEmpty : "" ∉ Text.split '.' "shop.nulls_last" := by
    rw [segments]
    decide
  have descending : read "shop.nulls_last.desc" =
      .ok ⟨"shop.nulls_last", .descending, none⟩ :=
    (readBack _ (some .descending) none noEmpty).mpr ⟨nofun, nofun⟩
  refine ⟨descending, (isWritten _ _ descending).2, ?_, ?_⟩
  · intro done
    have unmistakable := (readBack "shop.nulls_last" none none noEmpty).mp done
    exact unmistakable.noNulls rfl rfl .last (by rw [segments]; rfl)
  · have stripped : Text.split '.' "desc.nulls_first" =
        [] ++ suffix (some .descending) (some .first) := by decide +kernel
    exact (fails _ _).mpr
      ⟨rfl, [], some .descending, some .first, stripped, ⟨nofun, nofun⟩, .inl rfl⟩

end OrderItem
end DomainSql
