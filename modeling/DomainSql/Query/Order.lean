import DomainSql.Sql.Statement
import DomainSql.Text.Split

/-!
# Order items

An order item is a path, then optionally a direction, then optionally the place of
nulls, all separated by points. It is read from its end, so a last segment that is
one of these words is never part of the path.
-/

namespace DomainSql

/-- A path to sort by. -/
structure OrderItem where
  path : String
  direction : Sql.Direction
  nulls : Option Sql.NullPlace
  deriving DecidableEq

namespace OrderItem

/-- The place of nulls that a segment names. -/
def nullPlace? (segment : String) : Option Sql.NullPlace :=
  if segment = "nulls_first" then some .first
  else if segment = "nulls_last" then some .last
  else none

/-- The direction that a segment names. -/
def direction? (segment : String) : Option Sql.Direction :=
  if segment = "asc" then some .ascending
  else if segment = "desc" then some .descending
  else none

/-- Take the last segment off if it names something. -/
def takeLast
    {Named : Type}
    (named? : String → Option Named)
    (segments : List String) : Option Named × List String :=
  match segments.getLast?.bind named? with
  | some found => (some found, segments.dropLast)
  | none => (none, segments)

/-- The order item that a text describes. -/
def read (item : String) : Except ExpressionError OrderItem :=
  let (nulls, segments) := takeLast nullPlace? (Text.split '.' item)
  let (direction, path) := takeLast direction? segments
  if path.isEmpty || path.any String.isEmpty then .error (.notOrder item)
  else .ok ⟨Text.join '.' path, direction.getD .ascending, nulls⟩

end OrderItem
end DomainSql
