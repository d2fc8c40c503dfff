import CallScript.Optimizer

/-!
# Running a program

Statements are evaluated in order, and the arguments of a call from left to right before the call is
carried out. The value of a program is that of its last statement, null if there is none.

A call with a memo key is looked up among the kept results first; its result is kept when it has one.
There is a limit to the number of kept results. When it is reached, all of them are forgotten before
the next one is computed.

What a run changes is its `Session`: the kept results and the world. A failure ends the run, and
what happened before it stays.
-/

namespace CallScript

/-- Why a run fails. -/
inductive RuntimeError
  | notDefined (place : Place) (name : String)
  | wrongArgumentCount (place : Place) (name : String) (expected : Arity) (got : Nat)
  | nestingTooDeep (place : Place) (limit : Nat)
  | exception (e : Exception)
deriving DecidableEq, Repr

namespace RuntimeError

def place : RuntimeError → Place
  | notDefined p _ => p
  | wrongArgumentCount p _ _ _ => p
  | nestingTooDeep p _ => p
  | exception e => e.place

def message : RuntimeError → String
  | notDefined _ name => notDefinedMessage name
  | wrongArgumentCount _ name expected got => wrongArgumentCountMessage name expected got
  | nestingTooDeep _ limit => tooDeepMessage limit
  | exception e => e.render

end RuntimeError

/-- The results that are kept. -/
abbrev Memo := Std.HashMap MemoKey Value

/-- What a run changes. -/
structure Session where
  memo : Memo
  world : World

/-- A computation that changes a session, and may fail. -/
abbrev Run (α : Type) : Type := ExceptT RuntimeError (StateM Session) α

namespace Evaluator

/-- The number of results that are kept at most. -/
def memoCapacity : Nat := 4096

/-- Nothing is kept, once the limit is reached. -/
def makeRoom (memo : Memo) : Memo := if memoCapacity ≤ memo.size then ∅ else memo

/-- Looks up a kept result, or computes it and keeps it. -/
def remember (key : MemoKey) (compute : Run Value) : Run Value := do
  let s ← get
  match s.memo[key]? with
  | some v => pure v
  | none => do
    set ({ s with memo := makeRoom s.memo } : Session)
    let v ← compute
    modify fun s => { s with memo := s.memo.insert key v }
    pure v

/-- The function that a call names, for its number of arguments. -/
def callee (r : Registry) (place : Place) (name : String) (count : Nat) : Run Function :=
  match r.get? name with
  | none => throw (.notDefined place name)
  | some f =>
    if f.arity.accepts count then pure f
    else throw (.wrongArgumentCount place name f.arity count)

/-- Carries out a call. -/
def execute (f : Function) (name : String) (args : List Value) (place : Place) : Run Value := do
  let s ← get
  let (result, world) := f.execute args place (s.world.note name args)
  set ({ s with world := world } : Session)
  match result with
  | .ok v => pure v
  | .error e => throw (.exception e)

mutual

/-- Evaluates an expression at a level. -/
def evalAt (r : Registry) (maxDepth depth : Nat) : Node → Run Value
  | .literal v p => if maxDepth < depth then throw (.nestingTooDeep p maxDepth) else pure v.toValue
  | .call name p args memo =>
    if maxDepth < depth then throw (.nestingTooDeep p maxDepth)
    else
      let call : Run Value := do
        let f ← callee r p name args.length
        let vs ← evalAllAt r maxDepth (depth + 1) args
        execute f name vs p
      match memo with
      | some key => remember key call
      | none => call

/-- Evaluates expressions from left to right. -/
def evalAllAt (r : Registry) (maxDepth depth : Nat) : List Node → Run (List Value)
  | [] => pure []
  | n :: ns => do
    let v ← evalAt r maxDepth depth n
    let vs ← evalAllAt r maxDepth depth ns
    pure (v :: vs)

end

/-- Evaluates an expression. -/
def evalNode (r : Registry) (maxDepth : Nat) (n : Node) : Run Value := evalAt r maxDepth 1 n

/-- Evaluates the statements of a program, after one with the given value. -/
def evalFrom (r : Registry) (maxDepth : Nat) (last : Value) : Program → Run Value
  | [] => pure last
  | n :: ns => do
    let v ← evalNode r maxDepth n
    evalFrom r maxDepth v ns

/-- Evaluates a program. -/
def eval (r : Registry) (maxDepth : Nat) (p : Program) : Run Value := evalFrom r maxDepth .null p

end Evaluator

end CallScript
