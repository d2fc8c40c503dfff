import CallScript.Error

/-!
# The engine

An engine reads, compiles and runs scripts, one after the other. It has a registry, options that may
be changed between scripts, and a session, in which results are kept and services are installed.
-/

namespace CallScript

namespace Engine

/-- How scripts are treated. -/
structure Options where
  /-- Programs are optimized before they run. -/
  optimize : Bool := true
  /-- The optimizer marks calls whose results may be kept. -/
  keepResults : Bool := true
  /-- The name of the file that scripts come from. -/
  file : Option String := none
  /-- The levels of expressions that are accepted. -/
  maxDepth : Nat := defaultMaxDepth
deriving DecidableEq, Repr

end Engine

/-- An engine. -/
structure Engine where
  registry : Registry
  options : Engine.Options
  session : Session

namespace Engine

/-- The version of the language. -/
def version : String := "0.3.2"

/-- An engine in which nothing has happened. -/
def new (registry : Registry) (services : Services) (options : Options) : Engine :=
  ⟨registry, options, ⟨∅, World.fresh services⟩⟩

/-! ## 1. Settings -/

def setOptimize (e : Engine) (on : Bool) : Engine :=
  { e with options := { e.options with optimize := on } }

def setKeepResults (e : Engine) (on : Bool) : Engine :=
  { e with options := { e.options with keepResults := on } }

def setFile (e : Engine) (file : String) : Engine :=
  { e with options := { e.options with file := some file } }

def setMaxDepth (e : Engine) (limit : Nat) : Engine :=
  { e with options := { e.options with maxDepth := limit } }

/-- Forgets the results that are kept. -/
def forget (e : Engine) : Engine := { e with session := { e.session with memo := ∅ } }

/-- The services that are installed. -/
def services (e : Engine) : Services := e.session.world.services

/-- The engine with other services installed. -/
def withServices (e : Engine) (services : Services) : Engine :=
  { e with session := { e.session with world := { e.session.world with services := services } } }

/-! ## 2. Scripts -/

/-- The program that a source text writes. -/
def parseSource (file : Option String) (maxDepth : Nat) (source : String) :
    Except Error Program :=
  match Token.scan source file with
  | .error e => .error (Error.locate source (.lexical e))
  | .ok tokens =>
    match Node.parse maxDepth tokens with
    | .error e => .error (Error.locate source (.parse e))
    | .ok program => .ok program

/-- Reads a script. -/
def parse (e : Engine) (source : String) : Except Error Program :=
  parseSource e.options.file e.options.maxDepth source

/-- Reads a script and optimizes it, if the engine does so. -/
def compile (e : Engine) (source : String) : Except Error Program :=
  match e.parse source with
  | .error error => .error error
  | .ok program =>
    if e.options.optimize then
      match Optimizer.optimize e.registry
          ⟨e.options.keepResults, true, e.options.maxDepth⟩ program with
      | .error error => .error (Error.locate source (.compile error))
      | .ok program => .ok program
    else .ok program

/-- Runs a program. The source text serves only to find errors. -/
def run (e : Engine) (program : Program) (source : String) : Except Error Value × Engine :=
  let (result, session) := (Evaluator.eval e.registry e.options.maxDepth program).run.run e.session
  let e := { e with session := session }
  match result with
  | .ok v => (.ok v, e)
  | .error error => (.error (Error.locate source (.runtime error)), e)

/-- Compiles and runs a script. -/
def eval (e : Engine) (source : String) : Except Error Value × Engine :=
  match e.compile source with
  | .error error => (.error error, e)
  | .ok program => e.run program source

end Engine

end CallScript
