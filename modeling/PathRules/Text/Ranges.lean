/-!
# Sets of characters as ascending ranges of code points
-/

namespace PathRules.Text

/-- Each pair is a first and a last code point; the pairs ascend. -/
abbrev Ranges := List (Nat × Nat)

/-- The first range that does not end before the character decides. -/
def Ranges.has (ranges : Ranges) (c : Char) : Bool :=
  match ranges.find? fun range => c.toNat ≤ range.2 with
  | some range => range.1 ≤ c.toNat
  | none => false

end PathRules.Text
