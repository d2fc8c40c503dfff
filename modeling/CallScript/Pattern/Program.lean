import CallScript.Pattern.Expr

/-!
# Programs

A pattern is matched by a program: numbered steps, each of which says what to look for and where to
go on. `Expr.compile` appends the steps of an expression to a program, given the step at which to go
on after it, and gives the step at which the expression starts.

A step that goes on in several ways (`fork`) names them in the order in which they are preferred. The
order decides which match is found, and with expressions that can match nothing it takes care:
`e*` is compiled as `(e+)?` then, so that entering `e` comes before leaving the loop.
-/

namespace CallScript.Pattern

/-- A step of a program. -/
inductive Step
  | char (c : Char) (next : Nat)
  | set (s : CharSet) (next : Nat)
  | look (l : Look) (next : Nat)
  | fork (nexts : List Nat)
  /-- The place is noted in a slot. -/
  | save (slot : Nat) (next : Nat)
  | accept
deriving Repr

/-- The steps of a program. -/
abbrev Steps := Array Step

/-- The slots of a group: where it begins and where it ends. Groups are numbered from one. -/
def slotsOf (number : Nat) : Nat × Nat := (2 * (number - 1), 2 * (number - 1) + 1)

/-- Appends steps that go on at `next`, and gives the first of them. -/
def Emit : Type := (next : Nat) → Steps → Nat × Steps

namespace Emit

/-- Appends one step. -/
def step (s : Nat → Step) : Emit := fun next steps => (steps.size, steps.push (s next))

/-- A fork between an expression and what follows it. A lazy one prefers what follows. -/
def forkOf (greedy : Bool) (body next : Nat) : Step :=
  .fork (if greedy then [body, next] else [next, body])

/-- The expression a number of times. -/
def copies (e : Emit) : Nat → Emit
  | 0 => fun next steps => (next, steps)
  | n + 1 => fun next steps =>
    let (entry, steps) := copies e n next steps
    e entry steps

/-- Up to a number of copies, each within the one before it; all of them leave for the same step. -/
def upTo (e : Emit) (greedy : Bool) : Nat → Emit
  | 0 => fun next steps => (next, steps)
  | n + 1 => fun next steps =>
    let (inner, steps) := upTo e greedy n next steps
    let (body, steps) := e inner steps
    (steps.size, steps.push (forkOf greedy body next))

/-- The expression once or more: a fork behind it goes back to it. -/
def oneOrMore (e : Emit) (greedy : Bool) : Emit := fun next steps =>
  let fork := steps.size
  let (body, steps) := e fork (steps.push (.fork []))
  (body, steps.setIfInBounds fork (forkOf greedy body next))

/-- The expression any number of times: a fork in front of it, to which it comes back. -/
def loop (e : Emit) (greedy : Bool) : Emit := fun next steps =>
  let fork := steps.size
  let (body, steps) := e fork (steps.push (.fork []))
  (fork, steps.setIfInBounds fork (forkOf greedy body next))

/-- The expression a number of times that is bounded as given. -/
def repetition (e : Emit) (matchesEmpty : Bool) (min : Nat) (max : Option Nat) (greedy : Bool) :
    Emit :=
  match min, max with
  | 0, none => if matchesEmpty then upTo (oneOrMore e greedy) greedy 1 else loop e greedy
  | n + 1, none => fun next steps =>
    let (entry, steps) := oneOrMore e greedy next steps
    copies e n entry steps
  | min, some max => fun next steps =>
    let (entry, steps) := upTo e greedy (max - min) next steps
    copies e min entry steps

end Emit

namespace Expr

mutual

/-- Appends the steps of an expression. -/
def emit : Expr → Emit
  | .empty => fun next steps => (next, steps)
  | .char c => Emit.step (.char c)
  | .set s => Emit.step (.set s)
  | .look l => Emit.step (.look l)
  | .repetition e min max greedy => Emit.repetition e.emit e.matchesEmpty min max greedy
  | .group n e => fun next steps =>
    let (entry, steps) := Emit.step (.save (slotsOf n).2) next steps
    let (entry, steps) := e.emit entry steps
    Emit.step (.save (slotsOf n).1) entry steps
  | .sequence es => emitSequence es
  | .choice es => fun next steps =>
    let (entries, steps) := emitChoices es next steps
    (steps.size, steps.push (.fork entries))

/-- The expressions one after the other. -/
def emitSequence : List Expr → Emit
  | [] => fun next steps => (next, steps)
  | e :: r => fun next steps =>
    let (entry, steps) := emitSequence r next steps
    e.emit entry steps

/-- The expressions side by side. -/
def emitChoices : List Expr → (next : Nat) → Steps → List Nat × Steps
  | [], _, steps => ([], steps)
  | e :: r, next, steps =>
    let (entry, steps) := e.emit next steps
    let (entries, steps) := emitChoices r next steps
    (entry :: entries, steps)

end

end Expr

/-- A program, the step at which it starts, and the number of its slots. -/
structure Program where
  steps : Steps
  start : Nat
  slots : Nat

/-- The program of an expression. It accepts where the expression ends. -/
def Expr.compile (e : Expr) (groups : Nat) : Program :=
  let (start, steps) := e.emit 0 #[.accept]
  ⟨steps, start, 2 * groups⟩

end CallScript.Pattern
