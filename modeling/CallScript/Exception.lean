import CallScript.Node
import CallScript.Pattern.Replacement

/-!
# Exceptions

What a function raises when it cannot do with its arguments. The cause (`Fault`) decides the kind and
the message; the exception adds the place of the call. There are three kinds, and a function says in
its description which of them it may raise.
-/

namespace CallScript

namespace Exception

/-- The kinds of exceptions. -/
inductive Kind
  | format
  | cast
  | indexOverflow
deriving DecidableEq, Repr

/-- The name of a kind. -/
def Kind.render : Kind → String
  | .format => "FormatException"
  | .cast => "CastException"
  | .indexOverflow => "IndexOverflowException"

end Exception

/-- Why a function cannot do with its arguments. -/
inductive Fault
  /-- A text that does not write an integer. -/
  | notIntegerText (text : String)
  /-- A value of a kind that is no integer. -/
  | notInteger (kindName : String)
  | notArray (kindName : String)
  | notKey (kindName : String)
  | keyMissing (key : Key)
  | patternMissing
  | flagUnknown (c : Char)
  | pattern (source : String) (e : Pattern.Error)
  | replacement (e : Pattern.ReplacementError)
  /-- A cause of a function that is not among the built-in ones. -/
  | other (kind : Exception.Kind) (message : String)
deriving DecidableEq, Repr

namespace Fault

/-- The kind of exception that a cause leads to. -/
def kind : Fault → Exception.Kind
  | notIntegerText _ => .cast
  | notInteger _ => .cast
  | notArray _ => .cast
  | notKey _ => .cast
  | keyMissing _ => .indexOverflow
  | patternMissing => .format
  | flagUnknown _ => .format
  | pattern _ _ => .format
  | replacement _ => .format
  | other kind _ => kind

def message : Fault → String
  | notIntegerText text => "Expecting an integer, but received \"" ++ text ++ "\""
  | notInteger kindName => "Expecting an integer, but received " ++ kindName
  | notArray kindName => "Expecting an array, but received " ++ kindName
  | notKey kindName => "Expecting an array key, but received " ++ kindName
  | keyMissing key => "The key \"" ++ key.render ++ "\" does not exist in the array"
  | patternMissing => "Missing pattern in pattern array"
  | flagUnknown c => "Unrecognized flag: " ++ c.toString
  | pattern source e => "Invalid regular expression \"" ++ source ++ "\": " ++ e.message
  | replacement e => e.message
  | other _ message => message

end Fault

/-- A fault of a call, with the place of the call. -/
structure Exception where
  fault : Fault
  place : Place
deriving DecidableEq, Repr

namespace Exception

def kind (e : Exception) : Kind := e.fault.kind

/-- The kind and the message. -/
def render (e : Exception) : String := e.kind.render ++ ": " ++ e.fault.message

end Exception

/-! ## Integers from values -/

/-- The integer that a value is, or that its text writes between blanks. -/
def Value.toInteger : Value → Except Fault Int64
  | .integer n => .ok n
  | .string s =>
    match Decimal.parse? (String.ofList (Text.trim s.toList)) with
    | some n => .ok n
    | none => .error (.notIntegerText s)
  | v => .error (.notInteger v.kindName)

end CallScript
