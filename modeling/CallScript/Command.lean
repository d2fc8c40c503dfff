import CallScript.Engine
import CallScript.Settings

/-!
# The command line

The program takes a few switches and at most one other argument, which is a script or, with
`--from-file`, the name of a file with one; without it the script is read from standard input. An
argument that starts with a dash is a switch, but for a dash alone; two dashes end the switches.
The arguments are read from left to right, and the first that is not in order decides.

Reading a script from outside is left to the caller: `Command.source` tells where it is, and
`Command.run` takes what was found there.
-/

namespace CallScript

/-! ## 1. Arguments -/

/-- What the arguments ask for. -/
structure Command where
  fromFile : Bool := false
  noOptimize : Bool := false
  noCache : Bool := false
  emitTree : Bool := false
  script : Option String := none
deriving DecidableEq, Repr

/-- Why arguments do not make a command. The first two are requests of their own. -/
inductive UsageError
  | help
  | version
  | unknownArgument
  | valueForSwitch
  | repeatedSwitch
deriving DecidableEq, Repr

namespace Command

/-- The switches. -/
inductive Switch
  | fromFile
  | noOptimize
  | noCache
  | emitTree
  | help
  | version
deriving DecidableEq, Repr

/-- The switch with a long name. -/
def longSwitch? (name : String) : Option Switch :=
  match name with
  | "from-file" => some .fromFile
  | "no-optimize" => some .noOptimize
  | "no-cache" => some .noCache
  | "emit-ast" => some .emitTree
  | "help" => some .help
  | "version" => some .version
  | _ => none

/-- The switch with a short name. -/
def shortSwitch? (c : Char) : Option Switch :=
  match c with
  | 'f' => some .fromFile
  | 'h' => some .help
  | 'V' => some .version
  | _ => none

/-- The command with a switch that may be given once. -/
def once (already : Bool) (c : Command) : Except UsageError Command :=
  if already then .error .repeatedSwitch else .ok c

/-- The command with a switch. -/
def turnOn (c : Command) : Switch → Except UsageError Command
  | .fromFile => once c.fromFile { c with fromFile := true }
  | .noOptimize => once c.noOptimize { c with noOptimize := true }
  | .noCache => once c.noCache { c with noCache := true }
  | .emitTree => once c.emitTree { c with emitTree := true }
  | .help => .error .help
  | .version => .error .version

/-- The command with the switches that letters name. -/
def turnOnAll (c : Command) : List Char → Except UsageError Command
  | [] => .ok c
  | letter :: r =>
    match shortSwitch? letter with
    | none => .error .unknownArgument
    | some s => (c.turnOn s).bind fun c => c.turnOnAll r

/-- The command with a switch by its long name, which takes no value. -/
def turnOnLong (c : Command) (text : List Char) : Except UsageError Command :=
  match longSwitch? (String.ofList (text.takeWhile (· ≠ '='))) with
  | none => .error .unknownArgument
  | some s => if text.contains '=' then .error .valueForSwitch else c.turnOn s

/-- The command with its script. -/
def withScript (c : Command) (script : String) : Except UsageError Command :=
  match c.script with
  | some _ => .error .unknownArgument
  | none => .ok { c with script := some script }

/-- The command with one more argument that is not two dashes. -/
def withArgument (c : Command) (arg : String) : Except UsageError Command :=
  match arg.toList with
  | '-' :: '-' :: name => c.turnOnLong name
  | '-' :: letter :: letters => c.turnOnAll (letter :: letters)
  | _ => c.withScript arg

/-- The command with more arguments; `plain` tells that the switches have ended. -/
def withArguments (c : Command) (plain : Bool) : List String → Except UsageError Command
  | [] => .ok c
  | arg :: r =>
    if plain then (c.withScript arg).bind fun c => c.withArguments true r
    else if arg = "--" then c.withArguments true r
    else (c.withArgument arg).bind fun c => c.withArguments false r

/-- The command that the arguments ask for. -/
def parse (args : List String) : Except UsageError Command :=
  withArguments ⟨false, false, false, false, none⟩ false args

/-! ## 2. The script -/

/-- Where the script is. -/
inductive Source
  | file (path : String)
  | inline (script : String)
  | standardInput
  /-- A file name should have been given. -/
  | unnamedFile
deriving DecidableEq, Repr

def source (c : Command) : Source :=
  match c.script, c.fromFile with
  | some path, true => .file path
  | some script, false => .inline script
  | none, true => .unnamedFile
  | none, false => .standardInput

/-- Why there is no script. -/
inductive LoadError
  | notFound (path : String)
  | nameMissing
  | notText
  | directory
deriving DecidableEq, Repr

def LoadError.message : LoadError → String
  | .notFound path => "File not found: " ++ path
  | .nameMissing => "A file name is required with --from-file"
  | .notText => "stream did not contain valid UTF-8"
  | .directory => "Is a directory (os error 21)"

/-- The text that bytes write. -/
def decode (bytes : ByteArray) : Except LoadError String :=
  match String.fromUTF8? bytes with
  | some s => .ok s
  | none => .error .notText

/-! ## 3. Carrying out a command -/

/-- Why a command fails. -/
inductive Failure
  | load (e : LoadError)
  | script (e : Error)
deriving DecidableEq, Repr

def Failure.message : Failure → String
  | .load e => e.message
  | .script e => e.cause.message

/-- What a command gives: the lines that are printed, and the failure if there was one. -/
structure Result where
  lines : List String
  failure : Option Failure
deriving DecidableEq, Repr

/-- The settings, with the switches of the command on top. -/
def apply (c : Command) (s : Settings) : Settings :=
  { s with
    optimize := s.optimize && !c.noOptimize
    keepResults := s.keepResults && !c.noCache }

/-- The services of the program: it has a console. -/
def services : Services := (Environment.empty.insert .console ()).2

/-- The name of the file that the script comes from. -/
def fileName (c : Command) : Option String :=
  match c.source with
  | .file path => some path
  | _ => none

/-- The engine of the program. -/
def engine (c : Command) (s : Settings) : Engine :=
  Engine.new Registry.standard services
    ⟨s.optimize, s.keepResults, c.fileName, defaultMaxDepth⟩

/-- Compiles the script, and prints its statements, or runs it and prints its value. -/
def runScript (c : Command) (s : Settings) (script : String) : Result :=
  let engine := c.engine s
  match engine.compile script with
  | .error e => ⟨[], some (.script e)⟩
  | .ok program =>
    if c.emitTree then ⟨program.map Node.render, none⟩
    else
      match engine.run program script with
      | (.ok v, engine) => ⟨engine.session.world.output ++ [v.render], none⟩
      | (.error e, engine) => ⟨engine.session.world.output, some (.script e)⟩

/-- Carries out a command with the script that was found. -/
def run (c : Command) (s : Settings) (script : Except LoadError String) : Result :=
  match script with
  | .error e => ⟨[], some (.load e)⟩
  | .ok script => c.runScript s script

end Command

end CallScript
