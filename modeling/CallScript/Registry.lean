import Std.Data.HashMap
import CallScript.Function.Array
import CallScript.Function.Console
import CallScript.Function.Pattern

/-!
# Registries

A registry finds functions by their names and lists them in the order in which they were registered.
A name can be registered once; a second registration is refused and changes nothing. Registries are
values: one that is extended stays as it was.
-/

namespace CallScript

/-- Functions by name, in the order of their registration. -/
structure Registry where
  functions : Std.HashMap String Function
  order : Array String

namespace Registry

/-- A registry without functions. -/
def empty : Registry := ⟨∅, #[]⟩

/-- The function with a name. -/
def get? (r : Registry) (name : String) : Option Function := r.functions[name]?

def contains (r : Registry) (name : String) : Bool := r.functions.contains name

/-- The names in the order of registration. -/
def names (r : Registry) : List String := r.order.toList

/-- The functions in the order of registration. -/
def toList (r : Registry) : List Function := r.names.filterMap r.get?

/-- The number of functions. -/
def size (r : Registry) : Nat := r.order.size

/-- A name that is registered already. -/
structure Duplicate where
  name : String
deriving DecidableEq, Repr

def Duplicate.message (d : Duplicate) : String :=
  "Function \"" ++ d.name ++ "\" is already registered"

/-- The registry with one more function. -/
def register (r : Registry) (f : Function) : Except Duplicate Registry :=
  if r.contains f.name then .error ⟨f.name⟩
  else .ok ⟨r.functions.insert f.name f, r.order.push f.name⟩

/-- The registry with one more function, unless its name is taken. -/
def registerNew (r : Registry) (f : Function) : Registry :=
  match r.register f with
  | .ok r => r
  | .error _ => r

/-- The registry with more functions, as far as their names are not taken. -/
def extend (r : Registry) (fs : List Function) : Registry := fs.foldl registerNew r

/-- The functions of the language. -/
def builtins : List Function :=
  [.array, .arrayGet, .replace, .split, .console, .regMatch, .regMatchAll, .regReplace, .regSplit,
    .regCount, .regEscape]

/-- The registry of the functions of the language. -/
def standard : Registry := empty.extend builtins

end Registry

end CallScript
