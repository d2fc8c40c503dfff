import CallScript.Exception
import CallScript.Function.Arity
import CallScript.World

/-!
# Functions

A function describes itself: its name, the arguments that it takes, what it does, which kinds of
exceptions it may raise, and what may be done with calls of it before a program runs (`Treatment`).
And it does three things:

* `validate` makes the checks that a call would make, without the work;
* `execute` carries out a call;
* `rewrite` may give a cheaper call with the same result, given the arguments as expressions.

A missing argument counts as null. Functions that only compute with their arguments are made by
`Function.ofPure`.
-/

namespace CallScript

/-- Whether calls may be carried out away from the main thread. -/
inductive Affinity
  | unspecified
  | anyThread
  | mainThread
deriving DecidableEq, Repr

/-- What may be done with the calls of a function before a program runs. -/
inductive Treatment
  /-- If all arguments are literals, they are validated. -/
  | validated
  /-- The result depends on the arguments alone, so that of a call with literal arguments may be
      kept. -/
  | kept
  /-- The call may be replaced by another one. -/
  | rewritten
  /-- Nothing is lost if the call is left out, once its result is not used. -/
  | droppable
deriving DecidableEq, Repr

/-- An example in the description of a function. -/
structure Example where
  description : String
  script : String
  output : String
deriving DecidableEq, Repr

/-- A function of the language. -/
structure Function where
  name : String
  arity : Arity
  params : List String
  docs : String
  examples : List Example
  thrown : List Exception.Kind
  affinity : Affinity
  treatments : List Treatment
  validate : List Value → Place → Except Exception Unit
  execute : List Value → Place → World → Except Exception Value × World
  rewrite : List Node → Place → Except Exception (Option Node)

namespace Function

/-- The function allows the treatment. -/
def allows (f : Function) (t : Treatment) : Bool := f.treatments.contains t

/-- The argument at a position. -/
def arg (args : List Value) (i : Nat) : Value := args.getD i .null

/-- A fault becomes an exception at the place of the call. -/
def raiseAt {α : Type} (place : Place) : Except Fault α → Except Exception α
  | .ok a => .ok a
  | .error fault => .error ⟨fault, place⟩

/-- No check. -/
def noCheck (_ : List Value) : Except Fault Unit := .ok ()

/-- No other call. -/
def noRewrite (_ : List Node) (_ : Place) : Except Fault (Option Node) := .ok none

/-- What a function tells about itself. -/
structure Description where
  name : String
  arity : Arity
  params : List String
  docs : String
  examples : List Example
  thrown : List Exception.Kind
  affinity : Affinity := .anyThread
  treatments : List Treatment

/-- The function that computes with its arguments and raises every fault at the place of the call. -/
def ofPure (d : Description) (compute : List Value → Except Fault Value)
    (check : List Value → Except Fault Unit)
    (replace : List Node → Place → Except Fault (Option Node)) : Function where
  name := d.name
  arity := d.arity
  params := d.params
  docs := d.docs
  examples := d.examples
  thrown := d.thrown
  affinity := d.affinity
  treatments := d.treatments
  validate args place := raiseAt place (check args)
  execute args place w := (raiseAt place (compute args), w)
  rewrite args place := raiseAt place (replace args place)

end Function

end CallScript
