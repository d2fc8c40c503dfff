import CallScript.Environment
import CallScript.Value

/-!
# The world of a run

What the calls of a run share: the services of the host, the lines that went to the console, and the
calls that were carried out, with their arguments. A line is kept only if a console is installed.
-/

namespace CallScript

/-- What a host may offer to functions. -/
inductive Service
  /-- A console takes lines of text. -/
  | console
deriving DecidableEq, Repr

/-- What is known of a service that is installed. -/
def Service.Handle : Service → Type
  | .console => Unit

/-- The services that are installed. -/
abbrev Services := Environment Service.Handle

/-- A call that was carried out. -/
structure Execution where
  name : String
  args : List Value

/-- What calls can see and change. Lines and executions stand in reverse. -/
structure World where
  services : Services
  lines : List String
  executions : List Execution

namespace World

/-- A world in which nothing has happened. -/
def fresh (services : Services) : World := ⟨services, [], []⟩

def hasConsole (w : World) : Bool := (w.services.get? .console).isSome

/-- Gives a line to the console, if there is one. -/
def writeLine (w : World) (line : String) : World :=
  if w.hasConsole then { w with lines := line :: w.lines } else w

/-- Notes that a call is carried out. -/
def note (w : World) (name : String) (args : List Value) : World :=
  { w with executions := ⟨name, args⟩ :: w.executions }

/-- The lines of the console, the first one first. -/
def output (w : World) : List String := w.lines.reverse

/-- The calls that were carried out, the first one first. -/
def trace (w : World) : List Execution := w.executions.reverse

end World

end CallScript
