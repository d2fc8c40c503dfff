import CallScript.Pattern.Matches
import CallScript.Pattern.Parser
import CallScript.Pattern.Quotation

/-!
# Patterns

A pattern that has been read and compiled. Patterns whose program would be too large are refused.
-/

namespace CallScript

/-- A compiled pattern, with the text and the flags it was made from. -/
structure Pattern where
  source : String
  flags : Pattern.Flags
  program : Pattern.Program
  groups : Pattern.Groups

namespace Pattern

/-- The size that a program may have. -/
def sizeLimit : Nat := 10 * 1024 * 1024

/-- The size of the steps around the program of an expression. -/
def frameCost : Nat := 3 * Expr.stepCost

/-- Reads and compiles the text of a pattern. -/
def compile (source : String) (flags : Flags) : Except Error Pattern :=
  match Expr.parse flags (expandQuotes source.toList) with
  | .error e => .error e
  | .ok (e, groups) =>
    if sizeLimit < e.cost + frameCost then .error .tooLarge
    else
      let groups := groups.restrict e.groups
      .ok ⟨source, flags, e.compile groups.count, groups⟩

/-- The number of groups, not counting the whole match. -/
def groupCount (p : Pattern) : Nat := p.groups.count

/-- The names of the groups that have one, with their numbers. -/
def namedGroups (p : Pattern) : List (Nat × GroupName) :=
  (p.groups.names.zipIdx 1).filterMap fun o => o.1.map fun n => (o.2, n)

end Pattern

end CallScript
