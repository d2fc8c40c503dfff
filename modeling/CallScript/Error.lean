import CallScript.Evaluator
import CallScript.Token.Lexer

/-!
# Errors of a script

All that can go wrong with a script, from its text to its run, is one kind of error: the cause with
its place, found again in the source text. For a report an error has a code, a message and a help.
-/

namespace CallScript

namespace Error

/-- What went wrong. -/
inductive Cause
  | lexical (e : LexError)
  | parse (e : ParseError)
  | compile (e : CompileError)
  | runtime (e : RuntimeError)
deriving DecidableEq, Repr

namespace Cause

def place : Cause → Place
  | lexical e => e.place
  | parse e => e.place
  | compile e => e.place
  | runtime e => e.place

def message : Cause → String
  | lexical e => e.message
  | parse e => e.message
  | compile e => e.message
  | runtime e => e.message

/-- The exception that was raised, if it was one. -/
def exception? : Cause → Option Exception
  | compile (.exception e) => some e
  | runtime (.exception e) => some e
  | _ => none

/-- The code of an error, for reports. -/
def code : Cause → String
  | lexical (.unexpectedCharacter _ _) => "LexerError::UnexpectedToken"
  | lexical (.unterminatedString _) => "LexerError::UnterminatedString"
  | parse (.unexpectedToken _ _) => "ParseError::UnexpectedToken"
  | parse (.unexpectedEnd _) => "ParseError::UnexpectedEOFDetected"
  | parse (.integerOutOfRange _ _) => "ParseError::IntegerOutOfRange"
  | parse (.nestingTooDeep _ _) => "ParseError::NestingTooDeep"
  | compile (.notDefined _ _) => "CompileError::NotDefined"
  | compile (.wrongArgumentCount _ _ _ _) => "CompileError::InvalidNumberOfArguments"
  | compile (.nestingTooDeep _ _) => "CompileError::NestingTooDeep"
  | compile (.exception e) => "CompileError::" ++ e.kind.render
  | compile (.unsettled _) => "CompileError::Unsettled"
  | runtime (.notDefined _ _) => "RuntimeError::NotDefined"
  | runtime (.wrongArgumentCount _ _ _ _) => "RuntimeError::InvalidNumberOfArguments"
  | runtime (.nestingTooDeep _ _) => "RuntimeError::NestingTooDeep"
  | runtime (.exception e) => "RuntimeError::" ++ e.kind.render

def notDefinedHelp (name : String) : String := "'" ++ name ++ "' is not a known function."

def wrongArgumentCountHelp (expected : Arity) (got : Nat) : String :=
  "Invalid number of arguments: expected " ++ expected.render ++ ", got " ++ toString got ++ "."

def tooDeepHelp (limit : Nat) : String :=
  "Split the expression into smaller statements, or raise the limit of " ++ toString limit ++ "."

def exceptionHelp : Exception.Kind → String
  | .format => "Check the pattern, flags and backreferences."
  | .cast => "Check the types of the arguments."
  | .indexOverflow => "The key does not exist in the array."

/-- What may be done about an error. -/
def help : Cause → String
  | lexical (.unexpectedCharacter _ _) => "This character cannot start a token."
  | lexical (.unterminatedString _) => "Add the closing quote to the string literal."
  | parse (.unexpectedToken _ _) => "Check for syntax errors or misplaced tokens."
  | parse (.unexpectedEnd _) =>
    "Input ended unexpectedly. Check for missing closing parentheses or quotes."
  | parse (.integerOutOfRange _ _) => "Integers must fit in a signed 64-bit value."
  | parse (.nestingTooDeep _ limit) => tooDeepHelp limit
  | compile (.notDefined _ name) => notDefinedHelp name
  | compile (.wrongArgumentCount _ _ expected got) => wrongArgumentCountHelp expected got
  | compile (.nestingTooDeep _ limit) => tooDeepHelp limit
  | compile (.exception e) => exceptionHelp e.kind
  | compile (.unsettled _) => "Let the rewriting of functions come to an end."
  | runtime (.notDefined _ name) => notDefinedHelp name
  | runtime (.wrongArgumentCount _ _ expected got) => wrongArgumentCountHelp expected got
  | runtime (.nestingTooDeep _ limit) => tooDeepHelp limit
  | runtime (.exception e) => exceptionHelp e.kind

end Cause

end Error

/-- An error of a script, found in its source text. -/
structure Error where
  cause : Error.Cause
  source : String
  region : Place.Region
deriving DecidableEq, Repr

namespace Error

/-- The error with this cause, found in the source text. -/
def locate (source : String) (cause : Cause) : Error := ⟨cause, source, cause.place.region source⟩

end Error

end CallScript
