import CallScript.Pattern.CharSet

/-!
# Pattern expressions

What the text of a pattern stands for: a tree of characters, sets, assertions about the place in the
subject, repetitions, numbered groups, sequences and choices.

* `Expr.matchesEmpty` tells whether an expression may match nothing at all.
* `Expr.depth` is the nesting of the tree and `Expr.cost` the size of the program it is
  compiled to; both are limited.
* `Expr.groups` lists the numbers of the groups in the tree.
-/

namespace CallScript.Pattern

/-! ## 1. Assertions -/

/-- A condition on the place between two characters. -/
inductive Look
  | textStart
  | textEnd
  | lineStart
  | lineEnd
  /-- As `lineStart`, with carriage return, line feed and both in a row as line ends. -/
  | lineStartAny
  /-- As `lineEnd`, with carriage return, line feed and both in a row as line ends. -/
  | lineEndAny
  | wordBoundary
  | notWordBoundary
  | wordStart
  | wordEnd
  | wordStartHalf
  | wordEndHalf
deriving DecidableEq, Repr

/-- An ASCII letter, a digit or an underscore. -/
def isWordChar (c : Char) : Bool := c.isAlphanum || c = '_'

/-- The condition holds between the two characters; `none` stands for an end of the text. -/
def Look.holds (l : Look) (before after : Option Char) : Bool :=
  let wordBefore := before.any isWordChar
  let wordAfter := after.any isWordChar
  match l with
  | .textStart => before.isNone
  | .textEnd => after.isNone
  | .lineStart => before.isNone || before = some '\n'
  | .lineEnd => after.isNone || after = some '\n'
  | .lineStartAny =>
    before.isNone || before = some '\n' || (before = some '\r' && after ≠ some '\n')
  | .lineEndAny =>
    after.isNone || after = some '\r' || (after = some '\n' && before ≠ some '\r')
  | .wordBoundary => wordBefore ≠ wordAfter
  | .notWordBoundary => wordBefore = wordAfter
  | .wordStart => !wordBefore && wordAfter
  | .wordEnd => wordBefore && !wordAfter
  | .wordStartHalf => !wordBefore
  | .wordEndHalf => !wordAfter

/-! ## 2. The tree -/

/-- A pattern expression. -/
inductive Expr
  | empty
  | char (c : Char)
  | set (s : CharSet)
  | look (l : Look)
  | repetition (e : Expr) (min : Nat) (max : Option Nat) (greedy : Bool)
  | group (number : Nat) (e : Expr)
  | sequence (es : List Expr)
  | choice (es : List Expr)

namespace Expr

/-- The expressions one after the other. -/
def ofSequence : List Expr → Expr
  | [] => .empty
  | [e] => e
  | es => .sequence es

/-- One of the expressions, the earlier ones first. -/
def ofChoice : List Expr → Expr
  | [e] => e
  | es => .choice es

/-- The expression a number of times. No times at all is the empty expression, and once is the
    expression itself. -/
def repeated (e : Expr) (min : Nat) (max : Option Nat) (greedy : Bool) : Expr :=
  if min = 0 ∧ max = some 0 then .empty
  else if min = 1 ∧ max = some 1 then e
  else .repetition e min max greedy

mutual

/-- The expression may match nothing at all. -/
def matchesEmpty : Expr → Bool
  | .empty => true
  | .char _ => false
  | .set _ => false
  | .look _ => true
  | .repetition e min _ _ => min = 0 || e.matchesEmpty
  | .group _ e => e.matchesEmpty
  | .sequence es => allMatchEmpty es
  | .choice es => anyMatchesEmpty es

def allMatchEmpty : List Expr → Bool
  | [] => true
  | e :: r => e.matchesEmpty && allMatchEmpty r

def anyMatchesEmpty : List Expr → Bool
  | [] => false
  | e :: r => e.matchesEmpty || anyMatchesEmpty r

end

/-! ## 3. Measures -/

mutual

/-- The levels below the root of the tree. -/
def depth : Expr → Nat
  | .repetition e _ _ _ => e.depth + 1
  | .group _ e => e.depth + 1
  | .sequence es => depthAll es + 1
  | .choice es => depthAll es + 1
  | _ => 0

def depthAll : List Expr → Nat
  | [] => 0
  | e :: r => max e.depth (depthAll r)

end

/-- The cost of a step of a program. -/
def stepCost : Nat := 32

/-- The cost of a step that goes on in two ways. -/
def forkCost : Nat := stepCost + 8

mutual

/-- The size of the program of an expression. An optional expression costs a fork and the step behind
    it; other bounded repetitions pay for the copies they need at least, a step for none of them, and
    then a fork with each optional copy and one step behind them all. -/
def cost : Expr → Nat
  | .empty => stepCost
  | .char _ => stepCost
  | .set s => stepCost + 8 * s.ranges.length
  | .look _ => stepCost
  | .group _ e => e.cost + 2 * stepCost
  | .sequence es => costAll es
  | .choice es => costAll es + 2 * stepCost + 4 * es.length
  | .repetition e min none _ =>
    if min = 0 then
      if e.matchesEmpty then e.cost + 2 * forkCost + stepCost else e.cost + forkCost
    else min * e.cost + forkCost
  | .repetition e min (some max) _ =>
    if min = 0 ∧ max = 1 then e.cost + forkCost + stepCost
    else if max ≤ min then (if min = 0 then stepCost else min * e.cost)
    else
      (if min = 0 then stepCost else min * e.cost) + (max - min) * (e.cost + forkCost) + stepCost

def costAll : List Expr → Nat
  | [] => 0
  | e :: r => e.cost + costAll r

end

mutual

/-- The numbers of the groups in the tree, in the order of their parentheses. -/
def groups : Expr → List Nat
  | .repetition e _ _ _ => e.groups
  | .group n e => n :: e.groups
  | .sequence es => groupsAll es
  | .choice es => groupsAll es
  | _ => []

def groupsAll : List Expr → List Nat
  | [] => []
  | e :: r => e.groups ++ groupsAll r

end

end Expr

end CallScript.Pattern
