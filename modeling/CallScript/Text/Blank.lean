import CallScript.Text.Range

/-!
# Blank characters

`isBlank` is white space in any script (the White_Space property). `trim` cuts it off both ends of
a text; this is how numbers and switches are read from free text.
-/

namespace CallScript.Text

/-- White space, as closed ranges in ascending order. -/
def blankRanges : Array (Nat × Nat) :=
  #[(0x9, 0xD), (0x20, 0x20), (0x85, 0x85), (0xA0, 0xA0), (0x1680, 0x1680), (0x2000, 0x200A),
    (0x2028, 0x2029), (0x202F, 0x202F), (0x205F, 0x205F), (0x3000, 0x3000)]

/-- White space in any script. -/
def isBlank (c : Char) : Bool := inRanges blankRanges c

/-- The text without the blanks at its two ends. -/
def trim (cs : List Char) : List Char :=
  ((cs.dropWhile isBlank).reverse.dropWhile isBlank).reverse

end CallScript.Text
