import CallScript.Node.Parser
import CallScript.Registry

/-!
# Optimizing a program before it runs

Every call is looked at after its arguments. A call of an unknown function, or with a number of
arguments that the function does not take, is refused. If the function allows it, then

1. a call all of whose arguments are literals is validated, and what validation raises is an error
   of the program;
2. the call may be replaced by another expression, which is optimized in its place;
3. a call all of whose arguments are literals gets a memo key, so that its result may be kept.

Of the statements that are not the last one, those that can be left out without loss are dropped.

A replacement may be replaced again. The number of replacements one after the other has a budget,
which is larger than any chain that comes to an end: a chain either stays within the parts of the
expression or goes through the names of functions.
-/

namespace CallScript

/-! ## 1. Errors and options -/

/-- Why a program is refused before it runs. -/
inductive CompileError
  | notDefined (place : Place) (name : String)
  | wrongArgumentCount (place : Place) (name : String) (expected : Arity) (got : Nat)
  | nestingTooDeep (place : Place) (limit : Nat)
  | exception (e : Exception)
  /-- Calls were replaced by calls, and there was no end to it. -/
  | unsettled (place : Place)
deriving DecidableEq, Repr

/-- The message about an unknown function. -/
def notDefinedMessage (name : String) : String := "\"" ++ name ++ "\" is not defined"

/-- The message about a number of arguments. -/
def wrongArgumentCountMessage (name : String) (expected : Arity) (got : Nat) : String :=
  "Invalid number of arguments in \"" ++ name ++ "\", expected " ++ expected.render ++ ", got " ++
    toString got

namespace CompileError

def place : CompileError → Place
  | notDefined p _ => p
  | wrongArgumentCount p _ _ _ => p
  | nestingTooDeep p _ => p
  | exception e => e.place
  | unsettled p => p

def message : CompileError → String
  | notDefined _ name => notDefinedMessage name
  | wrongArgumentCount _ name expected got => wrongArgumentCountMessage name expected got
  | nestingTooDeep _ limit => tooDeepMessage limit
  | exception e => e.render
  | unsettled _ => "Calls are replaced without end"

end CompileError

namespace Optimizer

/-- What the optimizer does. -/
structure Options where
  /-- Calls are marked whose results may be kept. -/
  keepResults : Bool := true
  /-- Statements are dropped that can be left out. -/
  dropUnused : Bool := true
  /-- The levels of expressions that are accepted. -/
  maxDepth : Nat := defaultMaxDepth
deriving DecidableEq, Repr

/-! ## 2. One call -/

/-- An exception is an error of the program. -/
def raised {α : Type} : Except Exception α → Except CompileError α
  | .ok a => .ok a
  | .error e => .error (.exception e)

/-- The validation of a call, if the function allows it and all arguments are literals. -/
def validate (f : Function) (place : Place) (literals : Option (List Literal)) :
    Except CompileError Unit :=
  match literals with
  | some ls => if f.allows .validated then raised (f.validate (ls.map Literal.toValue) place) else .ok ()
  | none => .ok ()

/-- The replacement of a call, if the function allows one and has one. -/
def replacement? (f : Function) (place : Place) (args : List Node) :
    Except CompileError (Option Node) :=
  if f.allows .rewritten then raised (f.rewrite args place) else .ok none

/-- The memo key of a call: the one it has, or else a new one if the function allows it and all
    arguments are literals. -/
def memoFor (o : Options) (f : Function) (name : String) (literals : Option (List Literal))
    (memo : Option MemoKey) : Option MemoKey :=
  match memo with
  | some key => some key
  | none => if o.keepResults && f.allows .kept then literals.map (⟨name, ·⟩) else none

/-- Optimizes a call whose arguments are optimized. A replacement goes to `again`. -/
def optimizeCall (r : Registry) (o : Options) (again : Node → Except CompileError Node)
    (name : String) (place : Place) (args : List Node) (memo : Option MemoKey) :
    Except CompileError Node :=
  match r.get? name with
  | none => .error (.notDefined place name)
  | some f =>
    if !f.arity.accepts args.length then
      .error (.wrongArgumentCount place name f.arity args.length)
    else do
      let literals := Node.literals? args
      validate f place literals
      match ← replacement? f place args with
      | some node => again node
      | none => pure (.call name place args (memoFor o f name literals memo))

/-! ## 3. A whole expression -/

mutual

/-- Optimizes an expression at a level. A replacement goes to `again`, with its level. -/
def optimizeWith (r : Registry) (o : Options) (again : Nat → Node → Except CompileError Node)
    (depth : Nat) : Node → Except CompileError Node
  | .literal v p =>
    if o.maxDepth < depth then .error (.nestingTooDeep p o.maxDepth) else .ok (.literal v p)
  | .call name p args memo =>
    if o.maxDepth < depth then .error (.nestingTooDeep p o.maxDepth)
    else do
      let args ← optimizeAllWith r o again (depth + 1) args
      optimizeCall r o (again depth) name p args memo

/-- Optimizes expressions from left to right. -/
def optimizeAllWith (r : Registry) (o : Options) (again : Nat → Node → Except CompileError Node)
    (depth : Nat) : List Node → Except CompileError (List Node)
  | [] => .ok []
  | n :: ns => do
    let n ← optimizeWith r o again depth n
    let ns ← optimizeAllWith r o again depth ns
    pure (n :: ns)

end

/-- Optimizes an expression at a level, with a budget for replacements one after the other. -/
def optimizeAt (r : Registry) (o : Options) : (budget : Nat) → (depth : Nat) → Node →
    Except CompileError Node
  | 0, _, n => .error (.unsettled n.place)
  | budget + 1, depth, n => optimizeWith r o (optimizeAt r o budget) depth n

/-- The budget for an expression: at each of its nodes, a chain of replacements may go through all
    names. -/
def budgetFor (r : Registry) (n : Node) : Nat := (n.size + 1) * (r.size + 2)

/-- Optimizes an expression. -/
def optimizeNode (r : Registry) (o : Options) (n : Node) : Except CompileError Node :=
  optimizeAt r o (budgetFor r n) 1 n

/-! ## 4. A program -/

mutual

/-- Nothing is lost if the expression is left out. -/
def isDroppable (r : Registry) : Node → Bool
  | .literal _ _ => true
  | .call name _ args _ =>
    (match r.get? name with
      | some f => f.allows .droppable
      | none => false) && areDroppable r args

def areDroppable (r : Registry) : List Node → Bool
  | [] => true
  | n :: ns => isDroppable r n && areDroppable r ns

end

/-- Optimizes the statements of a program. -/
def optimize (r : Registry) (o : Options) : Program → Except CompileError Program
  | [] => .ok []
  | [n] => do
    let n ← optimizeNode r o n
    pure [n]
  | n :: ns => do
    let n ← optimizeNode r o n
    let ns ← optimize r o ns
    pure (if o.dropUnused && isDroppable r n then ns else n :: ns)

end Optimizer

end CallScript
