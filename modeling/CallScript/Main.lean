import CallScript.Command

/-!
# The program

Reads the settings and the arguments, finds the script, carries out the command and prints. The exit
code is 0 after success, 1 after a failure and 2 after arguments that are not in order.
-/

namespace CallScript.Executable

/-- The usage of the program. -/
def usage : String :=
  "Usage: mscript [OPTIONS] [SCRIPT OR FILE]\n\n" ++
  "  -f, --from-file    Load the script from the file\n" ++
  "      --no-optimize  Evaluate the script as parsed, without the optimizer\n" ++
  "      --no-cache     Do not memoise calls with literal arguments\n" ++
  "      --emit-ast     Print the compiled program instead of evaluating it\n" ++
  "  -h, --help         Print help\n" ++
  "  -V, --version      Print version"

/-- The bytes that a stream still gives. -/
def readAll (stream : IO.FS.Stream) (read : ByteArray) : (fuel : Nat) → IO ByteArray
  | 0 => pure read
  | fuel + 1 => do
    let more ← stream.read 65536
    if more.isEmpty then pure read else readAll stream (read ++ more) fuel

/-- The script in a file. -/
def loadFile (path : String) : IO (Except Command.LoadError String) := do
  try
    let bytes ← IO.FS.readBinFile path
    pure (Command.decode bytes)
  catch
    | .inappropriateType .. => pure (.error .directory)
    | .illegalOperation .. => pure (.error .directory)
    | _ => pure (.error (.notFound path))

/-- The script of a command. -/
def load (c : Command) : IO (Except Command.LoadError String) := do
  match c.source with
  | .inline script => pure (.ok script)
  | .unnamedFile => pure (.error .nameMissing)
  | .standardInput => do
    let stdin ← IO.getStdin
    let bytes ← readAll stdin ByteArray.empty UInt32.size
    pure (Command.decode bytes)
  | .file path => loadFile path

/-- Carries out a command and prints what it gives. -/
def perform (c : Command) : IO UInt32 := do
  let optimize ← IO.getEnv "MSCRIPT_OPTIMIZE"
  let keepResults ← IO.getEnv "MSCRIPT_CACHE"
  let rustLog ← IO.getEnv "RUST_LOG"
  let log ← IO.getEnv "MSCRIPT_LOG"
  let (settings, warnings) := Settings.read fun name =>
    match name with
    | "MSCRIPT_OPTIMIZE" => optimize
    | "MSCRIPT_CACHE" => keepResults
    | "RUST_LOG" => rustLog
    | "MSCRIPT_LOG" => log
    | _ => none
  warnings.forM fun w => IO.eprintln w
  let script ← load c
  let result := c.run (c.apply settings) script
  result.lines.forM fun line => IO.println line
  match result.failure with
  | none => pure 0
  | some failure => do
    IO.eprintln ("Error: " ++ failure.message)
    pure 1

end CallScript.Executable

/-- The entry of the program. -/
def main (args : List String) : IO UInt32 := do
  match CallScript.Command.parse args with
  | .ok c => CallScript.Executable.perform c
  | .error .help => do
    IO.println CallScript.Executable.usage
    pure 0
  | .error .version => do
    IO.println ("mscript " ++ CallScript.Engine.version)
    pure 0
  | .error _ => do
    IO.eprintln CallScript.Executable.usage
    pure 2
