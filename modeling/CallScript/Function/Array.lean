import CallScript.Function

/-!
# Functions on arrays
-/

namespace CallScript.Function

/-- The key that a value addresses. -/
def keyOf : Value → Except Fault Key
  | .integer i => .ok (.index i)
  | .string s => .ok (Key.ofText s)
  | v => .error (.notKey v.kindName)

/-- The value of an array under a key. -/
def lookUp (args : List Value) : Except Fault Value :=
  match arg args 0 with
  | .array t => do
    let key ← keyOf (arg args 1)
    match t.get? key with
    | some v => .ok v
    | none => .error (.keyMissing key)
  | v => .error (.notArray v.kindName)

/-- Makes an array of the arguments. -/
def array : Function :=
  ofPure
    { name := "array"
      arity := .atLeast 0
      params := ["values"]
      docs := "Creates an array holding the arguments, indexed from 0."
      examples :=
        [⟨"Three integers", "array(1, 2, 3)", "\x7b1, 2, 3\x7d"⟩,
         ⟨"Empty", "array()", "\x7b\x7d"⟩]
      thrown := []
      treatments := [.kept, .droppable] }
    (fun args => .ok (Value.ofList args)) noCheck noRewrite

/-- Reads an entry of an array. -/
def arrayGet : Function :=
  ofPure
    { name := "array_get"
      arity := .fixed 2
      params := ["array", "index"]
      docs := "Returns the value stored under index, which is an integer or a name. `x[i]` is " ++
        "shorthand for array_get(x, i)."
      examples :=
        [⟨"By index", "array('a', 'b')[0]", "a"⟩,
         ⟨"A numeric string addresses the index", "array_get(array('a', 'b'), '1')", "b"⟩]
      thrown := [.cast, .indexOverflow]
      treatments := [.droppable] }
    lookUp noCheck noRewrite

end CallScript.Function
