import CallScript.Place
import CallScript.Value

/-!
# Expression trees

A program is a list of statements, and a statement is a tree of calls with literals at its leaves.
Every node has its place in the script. A call may carry a memo key: then its result may be kept
and found again under that key, which is the name of the function with its literal arguments.

* `Node.render` writes a tree as a script that reads back as the tree.
* `Node.same` compares trees without regard to memo keys.
* `Node.size` and `Node.depth` measure a tree.
-/

namespace CallScript

/-! ## 1. Literals and memo keys -/

/-- A value written in a script. -/
inductive Literal
  | string (s : String)
  | integer (n : Int64)
  | null
deriving DecidableEq, Hashable, Repr

namespace Literal

def toValue : Literal → Value
  | .string s => .string s
  | .integer n => .integer n
  | .null => .null

/-- How a character is written in a string literal. -/
def escape (c : Char) : List Char :=
  if c = '\\' then ['\\', '\\']
  else if c = '\x27' then ['\\', '\x27']
  else if c = '\n' then ['\\', 'n']
  else if c = '\t' then ['\\', 't']
  else if c = '\r' then ['\\', 'r']
  else [c]

/-- The literal as it is written in a script. -/
def render : Literal → String
  | .string s => String.ofList (['\x27'] ++ s.toList.flatMap escape ++ ['\x27'])
  | .integer n => Decimal.render n
  | .null => "null"

end Literal

/-- A function and literal arguments: what a kept result is found by. -/
structure MemoKey where
  name : String
  args : List Literal
deriving DecidableEq, Hashable, Repr

/-- The text of a call with these arguments. -/
def renderCall (name : String) (args : List String) : String :=
  name ++ "(" ++ ", ".intercalate args ++ ")"

def MemoKey.render (k : MemoKey) : String := renderCall k.name (k.args.map Literal.render)

/-! ## 2. Nodes -/

/-- A literal, or a call of a function. -/
inductive Node
  | literal (value : Literal) (place : Place)
  | call (name : String) (place : Place) (args : List Node) (memo : Option MemoKey)

/-- Statements in the order of the script. The value of a program is that of its last statement. -/
abbrev Program := List Node

namespace Node

instance : Inhabited Node := ⟨.literal .null default⟩

def place : Node → Place
  | .literal _ p => p
  | .call _ p _ _ => p

def args : Node → List Node
  | .literal _ _ => []
  | .call _ _ args _ => args

/-- The function that a call names. -/
def name? : Node → Option String
  | .literal _ _ => none
  | .call name _ _ _ => some name

/-- The literal that a node is. -/
def literal? : Node → Option Literal
  | .literal v _ => some v
  | .call _ _ _ _ => none

/-- The text of a string literal. -/
def text? : Node → Option String
  | .literal (.string s) _ => some s
  | _ => none

def isLiteral (n : Node) : Bool := n.literal?.isSome

def memo? : Node → Option MemoKey
  | .literal _ _ => none
  | .call _ _ _ memo => memo

/-- The literals of a list of nodes, if they all are literals. -/
def literals? : List Node → Option (List Literal)
  | [] => some []
  | n :: r => n.literal?.bind fun v => (literals? r).map (v :: ·)

/-- The key of a call all of whose arguments are literals. -/
def memoKey? : Node → Option MemoKey
  | .literal _ _ => none
  | .call name _ args _ => (literals? args).map (⟨name, ·⟩)

/-! ## 3. Text, comparison, measures -/

mutual

/-- The node as it is written in a script. -/
def render : Node → String
  | .literal v _ => v.render
  | .call name _ args _ => renderCall name (renderAll args)

def renderAll : List Node → List String
  | [] => []
  | n :: r => n.render :: renderAll r

end

mutual

/-- The nodes are the same, memo keys aside. -/
def same : Node → Node → Bool
  | .literal v p, .literal v' p' => v = v' && p = p'
  | .call name p args _, .call name' p' args' _ => name = name' && p = p' && sameAll args args'
  | _, _ => false

def sameAll : List Node → List Node → Bool
  | [], [] => true
  | n :: r, n' :: r' => n.same n' && sameAll r r'
  | _, _ => false

end

mutual

/-- The number of nodes in a tree. -/
def size : Node → Nat
  | .literal _ _ => 1
  | .call _ _ args _ => sizeAll args + 1

def sizeAll : List Node → Nat
  | [] => 0
  | n :: r => n.size + sizeAll r

end

mutual

/-- The number of levels of a tree. -/
def depth : Node → Nat
  | .literal _ _ => 1
  | .call _ _ args _ => depthAll args + 1

def depthAll : List Node → Nat
  | [] => 0
  | n :: r => max n.depth (depthAll r)

end

end Node

end CallScript
