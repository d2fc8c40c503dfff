import CallScript.Place
import CallScript.Text.Quoted

/-!
# Tokens

The words of a script. An integer keeps its digits as they were written, so that a number that does
not fit can be reported in the script's own words; a string holds its text without quotes and
escapes.
-/

namespace CallScript

namespace Token

/-- What a token is. -/
inductive Kind
  | comma
  | semicolon
  | leftParen
  | rightParen
  | leftBracket
  | rightBracket
  | null
  | ident (name : String)
  | integer (written : String)
  | string (text : String)
  | eof
deriving DecidableEq, Repr

/-- How a token is named in a message. -/
def Kind.render : Kind → String
  | .comma => ","
  | .semicolon => ";"
  | .leftParen => "("
  | .rightParen => ")"
  | .leftBracket => "["
  | .rightBracket => "]"
  | .null => "null"
  | .ident name => name
  | .integer written => written
  | .string text => Text.quoted text
  | .eof => ""

end Token

/-- A token and the place of its first character. -/
structure Token where
  kind : Token.Kind
  place : Place
deriving DecidableEq, Repr

/-- Why a text cannot be cut into tokens. -/
inductive LexError
  | unexpectedCharacter (place : Place) (c : Char)
  | unterminatedString (place : Place)
deriving DecidableEq, Repr

namespace LexError

/-- The character that could not be read on from. -/
def place : LexError → Place
  | unexpectedCharacter p _ => p
  | unterminatedString p => p

def message : LexError → String
  | unexpectedCharacter _ c => "Unexpected character `" ++ c.toString ++ "`"
  | unterminatedString _ => "Unterminated string literal"

end LexError

end CallScript
