import Std.Data.HashMap
import CallScript.Pattern

/-!
# Keeping compiled patterns

A cache keeps the patterns that were compiled through it, by their text and flags, so that the same
pattern is not compiled again. It holds a limited number: when it is full, it is emptied before the
next one goes in. A pattern that is refused leaves it as it is.
-/

namespace CallScript.Pattern

/-- Compiled patterns by text and flags. -/
structure Cache where
  patterns : Std.HashMap (String × Flags) Pattern

namespace Cache

/-- The number of patterns that a cache holds at most. -/
def capacity : Nat := 512

/-- Nothing is kept. -/
def empty : Cache := ⟨∅⟩

/-- The number of patterns that are kept. -/
def size (c : Cache) : Nat := c.patterns.size

/-- The pattern for a text and flags, kept or compiled now, and the cache after that. -/
def fetch (c : Cache) (source : String) (flags : Flags) : Except Error Pattern × Cache :=
  match c.patterns[(source, flags)]? with
  | some p => (.ok p, c)
  | none =>
    match compile source flags with
    | .error e => (.error e, c)
    | .ok p =>
      let kept := if capacity ≤ c.size then ∅ else c.patterns
      (.ok p, ⟨kept.insert (source, flags) p⟩)

end Cache

end CallScript.Pattern
