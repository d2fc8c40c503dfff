import CallScript.Node
import CallScript.Token

/-!
# Reading a program from tokens

Statements are separated by semicolons, which may be repeated and may stand at both ends. An
expression is a string, an integer, `null`, a call with arguments between parentheses, an expression
in parentheses, or an expression followed by an index in brackets; `x[i]` is the call
`array_get(x, i)` at the place of the bracket. Expressions within arguments, parentheses or brackets
are one level deeper than the expression around them, and there is a limit to the levels.

The reader goes through the tokens once. What is open around the current expression is kept as a
list of frames, whose length is the level; what may come next is the `Goal`. The end mark ends the
program where a statement may end; what follows it is never looked at.
-/

namespace CallScript

/-- Why tokens do not form a program. -/
inductive ParseError
  | unexpectedToken (place : Place) (token : String)
  | unexpectedEnd (place : Place)
  | integerOutOfRange (place : Place) (written : String)
  | nestingTooDeep (place : Place) (limit : Nat)
deriving DecidableEq, Repr

/-- The message of a limit on nesting, which reading, optimizing and running share. -/
def tooDeepMessage (limit : Nat) : String :=
  "Expressions are nested deeper than " ++ toString limit ++ " levels"

namespace ParseError

def place : ParseError → Place
  | unexpectedToken p _ => p
  | unexpectedEnd p => p
  | integerOutOfRange p _ => p
  | nestingTooDeep p _ => p

def message : ParseError → String
  | unexpectedToken _ token => "Unexpected token `" ++ token ++ "`"
  | unexpectedEnd _ => "Unexpected EOF detected"
  | integerOutOfRange _ written => "Integer literal `" ++ written ++ "` is out of range"
  | nestingTooDeep _ limit => tooDeepMessage limit

end ParseError

namespace Node

/-- The function that an index in brackets calls. -/
def indexFunction : String := "array_get"

/-- What is open around an expression. -/
inductive Frame
  /-- Parentheses that only group. -/
  | group
  /-- The arguments of a call, the last one read first. -/
  | arguments (name : String) (place : Place) (done : List Node)
  /-- The index of an expression, with the place of the bracket. -/
  | index (subject : Node) (place : Place)

/-- What may come next. -/
inductive Goal
  /-- A statement, a separator, or the end. -/
  | statement
  /-- An expression. -/
  | expression
  /-- The parenthesis that opens the arguments of the named function. -/
  | opening (name : String) (place : Place)
  /-- The first argument, or the parenthesis that closes an empty list of them. -/
  | firstArgument (name : String) (place : Place)
  /-- What follows the node, which is complete. -/
  | rest (node : Node)

/-- The failure at a token that may not stand there. -/
def refuse (t : Token) : ParseError :=
  match t.kind with
  | .eof => .unexpectedEnd t.place
  | kind => .unexpectedToken t.place kind.render

/-- What is done with a token: the new frames and the new goal, the program as it stands, or a
    failure. -/
inductive Step
  | go (frames : List Frame) (goal : Goal)
  | finish (node : Node)
  | stop
  | fail (e : ParseError)

/-- Reads the first token of an expression. -/
def startExpression (limit : Nat) (frames : List Frame) (t : Token) : Step :=
  if limit ≤ frames.length then .fail (.nestingTooDeep t.place limit)
  else
    match t.kind with
    | .string s => .go frames (.rest (.literal (.string s) t.place))
    | .integer written =>
      match Decimal.parse? written with
      | some n => .go frames (.rest (.literal (.integer n) t.place))
      | none => .fail (.integerOutOfRange t.place written)
    | .null => .go frames (.rest (.literal .null t.place))
    | .ident name => .go frames (.opening name t.place)
    | .leftParen => .go (.group :: frames) .expression
    | _ => .fail (refuse t)

/-- Reads the token after a complete node. A statement that is complete is handed over by
    `finish`. -/
def afterNode (node : Node) (frames : List Frame) (t : Token) : Step :=
  if t.kind = .leftBracket then .go (.index node t.place :: frames) .expression
  else
    match frames, t.kind with
    | [], .semicolon => .finish node
    | [], .eof => .finish node
    | .group :: frames, .rightParen => .go frames (.rest node)
    | .arguments name p done :: frames, .comma =>
      .go (.arguments name p (node :: done) :: frames) .expression
    | .arguments name p done :: frames, .rightParen =>
      .go frames (.rest (.call name p (node :: done).reverse none))
    | .index subject p :: frames, .rightBracket =>
      .go frames (.rest (.call indexFunction p [subject, node] none))
    | _, _ => .fail (refuse t)

/-- What is done with the next token. -/
def step (limit : Nat) (frames : List Frame) (t : Token) : Goal → Step
  | .statement =>
    match t.kind with
    | .semicolon => .go [] .statement
    | .eof => .stop
    | _ => startExpression limit [] t
  | .expression => startExpression limit frames t
  | .opening name p =>
    if t.kind = .leftParen then .go frames (.firstArgument name p) else .fail (refuse t)
  | .firstArgument name p =>
    if t.kind = .rightParen then .go frames (.rest (.call name p [] none))
    else startExpression limit (.arguments name p [] :: frames) t
  | .rest node => afterNode node frames t

/-- What becomes of the goal when there are no more tokens, not even an end mark: the last
    statement, if one is complete. -/
def atEnd (limit : Nat) (frames : List Frame) : Goal → Except ParseError (List Node)
  | .statement => .ok []
  | .rest node => if frames.isEmpty then .ok [node] else .error (.unexpectedEnd default)
  | .expression =>
    if limit ≤ frames.length then .error (.nestingTooDeep default limit)
    else .error (.unexpectedEnd default)
  | .opening _ _ => .error (.unexpectedEnd default)
  | .firstArgument _ _ =>
    if limit ≤ frames.length + 1 then .error (.nestingTooDeep default limit)
    else .error (.unexpectedEnd default)

/-- The statements that are read from the tokens on. -/
def parseFrom (limit : Nat) (frames : List Frame) (goal : Goal) :
    List Token → Except ParseError Program
  | [] => atEnd limit frames goal
  | t :: ts =>
    match step limit frames t goal with
    | .go frames goal => parseFrom limit frames goal ts
    | .finish node =>
      if t.kind = .eof then .ok [node]
      else (parseFrom limit [] .statement ts).map (node :: ·)
    | .stop => .ok []
    | .fail e => .error e

/-- The program that the tokens form, with at most `limit` levels of expressions. -/
def parse (limit : Nat) (ts : List Token) : Except ParseError Program :=
  parseFrom limit [] .statement ts

end Node

/-- The limit on the levels of expressions, unless another one is set. -/
def defaultMaxDepth : Nat := 128

end CallScript
