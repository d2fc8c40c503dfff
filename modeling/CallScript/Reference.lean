import CallScript.Registry

/-!
# The reference of functions

The functions of a registry are described as a Markdown table, with one line to a function, or as
plain text. Without a choice of names all functions are described, in the order of their
registration; with one, those functions in that order. A name that is not registered is an error.

Within a cell of the table a vertical bar is escaped and a line feed becomes a space.
-/

namespace CallScript.Reference

/-- How the reference is written. -/
inductive Format
  | markdown
  | text
deriving DecidableEq, Repr

/-- The format with a name, which may be written in either case. -/
def Format.ofName? (name : String) : Option Format :=
  match String.ofList (name.toList.map Char.toLower) with
  | "markdown" => some .markdown
  | "text" => some .text
  | _ => none

/-- A name that is not registered. -/
structure UnknownFunction where
  name : String
deriving DecidableEq, Repr

def UnknownFunction.message (e : UnknownFunction) : String := "Unknown function: " ++ e.name

/-! ## 1. Markdown -/

/-- A character within a cell. -/
def cellChar (c : Char) : List Char :=
  if c = '|' then ['\\', '|'] else if c = '\n' then [' '] else [c]

/-- A text within a cell. -/
def cell (s : String) : String := String.ofList (s.toList.flatMap cellChar)

/-- A text as code. -/
def code (s : String) : String := "`" ++ s ++ "`"

/-- The first example of a function, with its result. -/
def firstExample (f : Function) : String :=
  match f.examples.head? with
  | some e => code e.script ++ " → " ++ code e.output
  | none => ""

/-- The line of a table with these cells. -/
def row (cells : List String) : String := "| " ++ " | ".intercalate cells ++ " |"

/-- The line of a function. -/
def functionRow (f : Function) : String :=
  row
    [code f.name, f.arity.render, cell f.docs, ", ".intercalate (f.params.map code),
     ", ".intercalate (f.thrown.map Exception.Kind.render), cell (firstExample f)]

/-- The two lines at the head of the table. -/
def header : List String :=
  [row ["Function Name", "Arity", "Description", "Parameters", "Throws", "Example"],
   row ["---", "---", "---", "---", "---", "---"]]

def markdown (fs : List Function) : String := "\n".intercalate (header ++ fs.map functionRow)

/-! ## 2. Plain text -/

/-- The lines of an example. -/
def exampleText (e : Example) : String :=
  "  # " ++ e.description ++ "\n  " ++ e.script ++ "\n  => " ++ e.output

/-- The lines of a function. -/
def functionText (f : Function) : String :=
  "# " ++ f.docs ++ "\n" ++ f.name ++ "(" ++ ", ".intercalate f.params ++ ")\n" ++
    "\n".intercalate (f.examples.map exampleText)

def text (fs : List Function) : String := "\n\n".intercalate (fs.map functionText)

/-! ## 3. The reference -/

/-- The functions with these names. -/
def select (r : Registry) : List String → Except UnknownFunction (List Function)
  | [] => .ok []
  | name :: rest =>
    match r.get? name with
    | none => .error ⟨name⟩
    | some f => (select r rest).map (f :: ·)

/-- The functions that are described: those with the names, or all if there is none. -/
def chosen (r : Registry) (names : List String) : Except UnknownFunction (List Function) :=
  if names.isEmpty then .ok r.toList else select r names

/-- The reference of the functions with these names, or of all functions if there is none. -/
def generate (r : Registry) (names : List String) (format : Format) :
    Except UnknownFunction String :=
  (chosen r names).map fun fs =>
    match format with
    | .markdown => markdown fs
    | .text => text fs

end CallScript.Reference
