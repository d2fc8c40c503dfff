/-!
# Numbers of arguments

How many arguments a function takes. Bounds are bytes.
-/

namespace CallScript

/-- The numbers of arguments that a function takes. -/
inductive Arity
  | fixed (n : UInt8)
  | range (min max : UInt8)
  | atLeast (min : UInt8)
deriving DecidableEq, Repr

namespace Arity

/-- The number of arguments is accepted. -/
def accepts (a : Arity) (count : Nat) : Bool :=
  match a with
  | .fixed n => count = n.toNat
  | .range min max => min.toNat ≤ count && count ≤ max.toNat
  | .atLeast min => min.toNat ≤ count

/-- The numbers from one to another. -/
def span (min max : Nat) : List Nat := (List.range (max + 1 - min)).map (· + min)

/-- The accepted numbers, for a description. Where there is no bound, only the first is listed. -/
def counts : Arity → List Nat
  | .fixed n => [n.toNat]
  | .range min max => span min.toNat max.toNat
  | .atLeast min => [min.toNat]

/-- The accepted numbers in words. -/
def render : Arity → String
  | .fixed n => toString n.toNat
  | .range min max => " or ".intercalate ((span min.toNat max.toNat).map toString)
  | .atLeast min => toString min.toNat ++ " or more"

end Arity

end CallScript
