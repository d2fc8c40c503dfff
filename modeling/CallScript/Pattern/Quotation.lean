import CallScript.Text.Substring

/-!
# Text within patterns

Text that is meant as it stands can be put into a pattern in two ways: each character that has a
meaning gets a backslash (`escape`), or the text is put between `\Q` and `\E`. The second way is
reduced to the first before a pattern is read (`expandQuotes`).

`plainText?` recognizes patterns that mean nothing but a text.
-/

namespace CallScript.Pattern

/-- A character that has a meaning in a pattern, somewhere. -/
def isMeta (c : Char) : Bool := "\\.+*?()|[]\x7b\x7d^$#&-~".toList.contains c

/-- A character as it has to be written to mean itself. -/
def escapeChar (c : Char) : List Char := if isMeta c then ['\\', c] else [c]

/-- A text as it has to be written to mean itself. -/
def escape (s : List Char) : List Char := s.flatMap escapeChar

/-- A pattern with its quoted sections escaped; `quoting` tells that a section is open. A section
    without an end reaches to the end of the pattern, and a backslash that is escaped itself opens
    none. -/
def expandQuotesFrom (quoting : Bool) : List Char → List Char
  | [] => []
  | [c] => if quoting then escapeChar c else [c]
  | c :: d :: r =>
    if quoting then
      if c = '\\' ∧ d = 'E' then expandQuotesFrom false r
      else escapeChar c ++ expandQuotesFrom true (d :: r)
    else if c = '\\' then
      if d = 'Q' then expandQuotesFrom true r else c :: d :: expandQuotesFrom false r
    else c :: expandQuotesFrom false (d :: r)

/-- A pattern with its quoted sections escaped. -/
def expandQuotes (s : List Char) : List Char := expandQuotesFrom false s

/-- A character that keeps a pattern from being plain text. -/
def isLive (c : Char) : Bool := "[\\^$.|?*+()\x7b".toList.contains c

/-- The pattern, if none of its characters has a meaning. -/
def unlessLive? (s : List Char) : Option (List Char) := if s.any isLive then none else some s

/-- The text that a pattern means, if it is one quoted section or no character of it has a meaning. -/
def plainText? (s : List Char) : Option (List Char) :=
  match s with
  | '\\' :: 'Q' :: r =>
    match r.reverse with
    | 'E' :: '\\' :: inner =>
      let inner := inner.reverse
      if Text.occursIn ['\\', 'Q'] inner || Text.occursIn ['\\', 'E'] inner then none
      else some inner
    | _ => unlessLive? s
  | _ => unlessLive? s

end CallScript.Pattern
