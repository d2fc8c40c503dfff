/-!
# Places

A place is a line and a column of a script, with the name of its file if it has one. Lines and
columns are counted from one; a column is a character, and only a line feed ends a line.

* `Place.render` writes a place, `line:column` with the file before it.
* `Place.after` is the place after some text.
* `Place.region` finds a place again in a source text, as an offset and a length in bytes.
-/

namespace CallScript

/-- A position in a script. -/
structure Place where
  file : Option String := none
  line : Nat := 1
  column : Nat := 1
deriving DecidableEq, Repr

namespace Place

instance : Inhabited Place := ⟨⟨none, 1, 1⟩⟩

/-- The place, with its file before it if it has one. -/
def render (p : Place) : String :=
  let position := toString p.line ++ ":" ++ toString p.column
  match p.file with
  | some file => file ++ ":" ++ position
  | none => position

/-- The place after a character. -/
def next (p : Place) (c : Char) : Place :=
  if c = '\n' then ⟨p.file, p.line + 1, 1⟩ else ⟨p.file, p.line, p.column + 1⟩

/-- The place after a text. -/
def after (p : Place) (text : List Char) : Place := text.foldl next p

theorem after_append (p : Place) (a b : List Char) : p.after (a ++ b) = (p.after a).after b := by
  simp [after, List.foldl_append]

/-! ## Finding a place in a source -/

/-- Both the line and the column have been reached. -/
def reachedBy (p here : Place) : Bool := p.line ≤ here.line && p.column ≤ here.column

/-- The bytes of the text in front of the first position, counted on from `here`, that has reached
    the place; all of them if none has. -/
def offsetFrom (p here : Place) : List Char → Nat
  | [] => 0
  | c :: r => if p.reachedBy here then 0 else c.utf8Size + p.offsetFrom (here.next c) r

/-- A stretch of a source text, in bytes. -/
structure Region where
  offset : Nat
  length : Nat
deriving DecidableEq, Repr

/-- Where the place lies in the source: the offset of its character, and length one unless the
    source ends there. -/
def region (p : Place) (source : String) : Region :=
  let offset := p.offsetFrom default source.toList
  ⟨offset, if offset < source.utf8ByteSize then 1 else 0⟩

end Place

end CallScript
