import CallScript.Text.Blank

/-!
# Settings

What the command line program reads from variables before it looks at its arguments. A switch is on
for `1`, `true`, `yes` and `on`, and off for `0`, `false`, `no` and `off`, in either case and with
blanks around it; anything else leaves it as it is, with a warning.
-/

namespace CallScript

/-- The settings of the program. -/
structure Settings where
  optimize : Bool := true
  keepResults : Bool := true
  logLevel : String := "warn"
deriving DecidableEq, Repr

namespace Settings

/-- The position of a switch that a text names. -/
def switch? (value : String) : Option Bool :=
  match String.ofList ((Text.trim value.toList).map Char.toLower) with
  | "1" => some true
  | "true" => some true
  | "yes" => some true
  | "on" => some true
  | "0" => some false
  | "false" => some false
  | "no" => some false
  | "off" => some false
  | _ => none

/-- The warning about a value that names no position. -/
def warning (name value : String) (default : Bool) : String :=
  "Warning: Invalid " ++ name ++ " value '" ++ value ++ "', using default " ++
    (if default then "true" else "false")

/-- The position of a switch and the warnings about it. -/
def readSwitch (name : String) (value : Option String) (default : Bool) : Bool × List String :=
  match value with
  | none => (default, [])
  | some value =>
    match switch? value with
    | some on => (on, [])
    | none => (default, [warning name value default])

/-- The settings that variables name, and the warnings about them. -/
def read (lookup : String → Option String) : Settings × List String :=
  let (optimize, w₁) := readSwitch "MSCRIPT_OPTIMIZE" (lookup "MSCRIPT_OPTIMIZE") true
  let (keepResults, w₂) := readSwitch "MSCRIPT_CACHE" (lookup "MSCRIPT_CACHE") true
  let logLevel := ((lookup "RUST_LOG").or (lookup "MSCRIPT_LOG")).getD "warn"
  (⟨optimize, keepResults, logLevel⟩, w₁ ++ w₂)

end Settings

end CallScript
