/-!
# Sets of characters

A set of characters is a list of closed ranges of code points in ascending order, with a gap between
any two of them. `insert` keeps this shape: it joins the new range with the ranges that it meets or
borders on.
-/

namespace CallScript.Pattern

/-- A closed range of code points. -/
structure CharRange where
  first : Nat
  last : Nat
deriving DecidableEq, Repr

/-- A set of characters. -/
structure CharSet where
  ranges : List CharRange
deriving DecidableEq, Repr

namespace CharSet

/-- The largest code point. -/
def maxCodePoint : Nat := 0x10FFFF

/-- The range of a single character. -/
def single (c : Char) : CharRange := ⟨c.toNat, c.toNat⟩

/-- The range between two characters. -/
def between (a b : Char) : CharRange := ⟨a.toNat, b.toNat⟩

/-- Adds a range to ranges in ascending order. -/
def insertRange (r : CharRange) : List CharRange → List CharRange
  | [] => [r]
  | s :: rest =>
    if r.last + 1 < s.first then r :: s :: rest
    else if s.last + 1 < r.first then s :: insertRange r rest
    else insertRange ⟨min r.first s.first, max r.last s.last⟩ rest

/-- The set of the characters in any of the ranges. -/
def ofRanges (rs : List CharRange) : CharSet := ⟨rs.foldr insertRange []⟩

/-- The ranges between those of the list, from `first` on. -/
def gaps (first : Nat) : List CharRange → List CharRange
  | [] => if first ≤ maxCodePoint then [⟨first, maxCodePoint⟩] else []
  | r :: rest =>
    if first < r.first then ⟨first, r.first - 1⟩ :: gaps (r.last + 1) rest
    else gaps (r.last + 1) rest

/-- The characters that are not in the set. -/
def complement (s : CharSet) : CharSet := ⟨gaps 0 s.ranges⟩

/-- The other case of the letters in a range: of the small letters if it has any, else of the
    capitals. -/
def otherCase? (r : CharRange) : Option CharRange :=
  let meets (a b : Char) := max r.first a.toNat ≤ min r.last b.toNat
  if meets 'a' 'z' then some ⟨max r.first 0x61 - 0x20, min r.last 0x7A - 0x20⟩
  else if meets 'A' 'Z' then some ⟨max r.first 0x41 + 0x20, min r.last 0x5A + 0x20⟩
  else none

/-- The set with the other case of its ASCII letters. -/
def foldCase (s : CharSet) : CharSet := ofRanges (s.ranges ++ s.ranges.filterMap otherCase?)

/-- The character is in the set. -/
def contains (s : CharSet) (c : Char) : Bool :=
  s.ranges.any fun r => r.first ≤ c.toNat && c.toNat ≤ r.last

/-! ## Named sets -/

def digit : CharSet := ofRanges [between '0' '9']

/-- Tab, line feed, vertical tab, form feed, carriage return and space. -/
def space : CharSet := ofRanges [between '\t' '\r', single ' ']

/-- ASCII letters, digits and the underscore. -/
def word : CharSet :=
  ofRanges [between '0' '9', between 'A' 'Z', single '_', between 'a' 'z']

/-- Every character. -/
def all : CharSet := ⟨[⟨0, maxCodePoint⟩]⟩

/-- Every character but a line feed. -/
def notLineFeed : CharSet := complement (ofRanges [single '\n'])

/-- Every character but a line feed and a carriage return. -/
def notLineEnd : CharSet := complement (ofRanges [single '\n', single '\r'])

/-- The sets that have a name between `[:` and `:]`. -/
def named? (name : String) : Option CharSet :=
  match name with
  | "alnum" => some (ofRanges [between '0' '9', between 'A' 'Z', between 'a' 'z'])
  | "alpha" => some (ofRanges [between 'A' 'Z', between 'a' 'z'])
  | "ascii" => some (ofRanges [⟨0, 0x7F⟩])
  | "blank" => some (ofRanges [single '\t', single ' '])
  | "cntrl" => some (ofRanges [⟨0, 0x1F⟩, ⟨0x7F, 0x7F⟩])
  | "digit" => some digit
  | "graph" => some (ofRanges [between '!' '~'])
  | "lower" => some (ofRanges [between 'a' 'z'])
  | "print" => some (ofRanges [between ' ' '~'])
  | "punct" =>
    some (ofRanges [between '!' '/', between ':' '@', ⟨0x5B, 0x60⟩, ⟨0x7B, 0x7E⟩])
  | "space" => some space
  | "upper" => some (ofRanges [between 'A' 'Z'])
  | "word" => some word
  | "xdigit" => some (ofRanges [between '0' '9', between 'A' 'F', between 'a' 'f'])
  | _ => none

end CharSet

end CallScript.Pattern
