/-!
# Boolean markers

A marker stands in front of its operands in a domain.
-/

namespace DomainSql

/-- A Boolean operator written in front of its operands. -/
inductive Marker
  | and
  | or
  | not
  deriving DecidableEq

namespace Marker

/-- The text of a marker. -/
def text : Marker → String
  | .and => "&"
  | .or => "|"
  | .not => "!"

/-- The marker with this text. -/
def ofText? (text : String) : Option Marker :=
  if text = "&" then some .and
  else if text = "|" then some .or
  else if text = "!" then some .not
  else none

/-- How many operands follow a marker. -/
def arity : Marker → Nat
  | .and => 2
  | .or => 2
  | .not => 1

@[simp] theorem ofText?_text (marker : Marker) :
    ofText? marker.text = some marker := by
  cases marker <;> rfl

/-- The text of a marker that was found is the text it was found by. -/
theorem text_of_ofText?
    {text : String}
    {marker : Marker}
    (found : ofText? text = some marker) :
    marker.text = text := by
  unfold ofText? at found
  split at found
  · rename_i equal
    cases found
    exact equal.symm
  · split at found
    · rename_i equal
      cases found
      exact equal.symm
    · split at found
      · rename_i equal
        cases found
        exact equal.symm
      · cases found

end Marker
end DomainSql
