/-!
# Ranges of characters

A property of characters is kept as a table of closed ranges of code points, and a character has
the property if its code point lies in one of them.
-/

namespace CallScript.Text

/-- The code point of the character lies in one of the ranges. -/
def inRanges (ranges : Array (Nat × Nat)) (c : Char) : Bool :=
  ranges.any fun r => r.1 ≤ c.toNat && c.toNat ≤ r.2

end CallScript.Text
