import CallScript.Text.Hidden

/-!
# Quoted text

A text in double quotes, written so that every character can be told: the usual short escapes for
tab, line ends, NUL, the double quote and the backslash, the code point in hexadecimal for any other
character without a visible form, and every other character as it is.
-/

namespace CallScript.Text

/-- How one character is written between double quotes. -/
def quotedChar (c : Char) : List Char :=
  if c = '\t' then ['\\', 't']
  else if c = '\n' then ['\\', 'n']
  else if c = '\r' then ['\\', 'r']
  else if c = '\x00' then ['\\', '0']
  else if c = '\x22' then ['\\', '\x22']
  else if c = '\\' then ['\\', '\\']
  else if isHidden c then ['\\', 'u', '\x7b'] ++ Nat.toDigits 16 c.toNat ++ ['\x7d']
  else [c]

/-- The text in double quotes. -/
def quoted (s : String) : String :=
  String.ofList (['\x22'] ++ s.toList.flatMap quotedChar ++ ['\x22'])

end CallScript.Text
