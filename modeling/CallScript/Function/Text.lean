import CallScript.Function
import CallScript.Text.Substring

/-!
# Functions on plain text

A limit on cuts is an integer. Without it, or if it is null or negative, there is no bound; a limit
of zero allows one cut, as one does.
-/

namespace CallScript.Function

/-- The number of cuts that a limit allows. -/
def cutsFor (limit : Option Value) : Except Fault (Option Nat) :=
  match limit with
  | none => .ok none
  | some .null => .ok none
  | some v => do
    let n ← v.toInteger
    pure (if 0 ≤ n.toInt then some (max n.toInt.toNat 1) else none)

/-- The characters of the text of an argument. -/
def charsOf (args : List Value) (i : Nat) : List Char := (arg args i).render.toList

/-- The value of a text. -/
def textValue (s : List Char) : Value := .string (String.ofList s)

/-- The array of texts. -/
def textsValue (parts : List (List Char)) : Value := Value.ofList (parts.map textValue)

/-- The pieces of a text; an empty delimiter cuts between any two characters. -/
def pieces (delimiter : List Char) (cuts : Option Nat) (subject : List Char) :
    List (List Char) :=
  if delimiter.isEmpty then Text.singles cuts subject else Text.splitOn delimiter cuts subject

/-- The subject with a text put in the place of another one, which stays if it is empty. -/
def substitute (subject what replacement : List Char) : List Char :=
  if what.isEmpty then subject else Text.replaceAll what replacement subject

/-- Replaces plain text. -/
def replace : Function :=
  ofPure
    { name := "replace"
      arity := .fixed 3
      params := ["subject", "what", "with"]
      docs := "Replaces every occurrence of the plain text what in subject with the plain text " ++
        "with, left to right and without overlaps."
      examples :=
        [⟨"Replace a prefix", "replace('abc123', 'abc', 'X')", "X123"⟩,
         ⟨"Every occurrence", "replace('a.b.c', '.', '-')", "a-b-c"⟩]
      thrown := []
      treatments := [.validated, .kept, .droppable] }
    (fun args => .ok (textValue (substitute (charsOf args 0) (charsOf args 1) (charsOf args 2))))
    noCheck noRewrite

/-- Splits at plain text. -/
def split : Function :=
  ofPure
    { name := "split"
      arity := .range 2 3
      params := ["delimiter", "subject", "limit"]
      docs := "Splits subject on the plain text delimiter. The optional limit is the number of " ++
        "cuts allowed, as in reg_split. An empty delimiter splits between characters."
      examples :=
        [⟨"Split on commas", "split(',', 'a,b,c')", "\x7ba, b, c\x7d"⟩,
         ⟨"At most one cut", "split(',', 'a,b,c', 1)", "\x7ba, b,c\x7d"⟩,
         ⟨"Characters", "split('', 'abc')", "\x7ba, b, c\x7d"⟩]
      thrown := [.cast]
      treatments := [.validated, .kept, .droppable] }
    (fun args => do
      let cuts ← cutsFor args[2]?
      pure (textsValue (pieces (charsOf args 0) cuts (charsOf args 1))))
    (fun args => do
      let _ ← cutsFor args[2]?
      pure ())
    noRewrite

end CallScript.Function
