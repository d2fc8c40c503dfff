import CallScript.Proofs.Function.Moves
import CallScript.Proofs.Optimizer.Derivation

/-!
# The optimizer does not look at places

What the optimizer makes of an expression moves along with its places, if no function of the registry
looks at them: the same calls are replaced, the same statements are left out, and the same memo keys
are given.

* `optimizeCall_move` is one call, `optimizeAt_move` an expression with its budget for replacements;
* `optimize_move` is the result for programs.
-/

namespace CallScript

/-- The error at the image of its place. -/
def CompileError.move (σ : Place → Place) : CompileError → CompileError
  | notDefined p name => .notDefined (σ p) name
  | wrongArgumentCount p name expected got => .wrongArgumentCount (σ p) name expected got
  | nestingTooDeep p limit => .nestingTooDeep (σ p) limit
  | exception e => .exception (e.move σ)
  | unsettled p => .unsettled (σ p)

namespace Optimizer

open Node (literals?)

variable {σ : Place → Place} {r : Registry} {o : Options}

/-! ## 1. One call -/

theorem raised_move {α β : Type} {k : α → β} (x : Except Exception α) :
    raised (mapBoth (Exception.move σ) k x) = mapBoth (CompileError.move σ) k (raised x) := by
  cases x <;> rfl

theorem validate_move {f : Function} (hf : f.IgnoresPlaces) (p : Place)
    (ls : Option (List Literal)) :
    validate f (σ p) ls = mapBoth (CompileError.move σ) id (validate f p ls) := by
  unfold validate
  cases ls with
  | none => rfl
  | some ls =>
      dsimp only
      split
      · rw [hf.validate]
        exact raised_move _
      · rfl

theorem replacement?_move {f : Function} (hf : f.IgnoresPlaces) (p : Place) (args : List Node) :
    replacement? f (σ p) (args.map (Node.move σ)) =
      mapBoth (CompileError.move σ) (Option.map (Node.move σ)) (replacement? f p args) := by
  unfold replacement?
  split
  · rw [hf.rewrite]
    exact raised_move _
  · rfl

/-- **What becomes of a call moves along with it**, if what becomes of its replacement does. -/
theorem optimizeCall_move (hr : r.IgnoresPlaces) {again : Node → Except CompileError Node}
    (hagain : ∀ n, again (n.move σ) = mapBoth (CompileError.move σ) (Node.move σ) (again n))
    (name : String) (p : Place) (args : List Node) (memo : Option MemoKey) :
    optimizeCall r o again name (σ p) (args.map (Node.move σ)) memo =
      mapBoth (CompileError.move σ) (Node.move σ) (optimizeCall r o again name p args memo) := by
  unfold optimizeCall
  cases hf : r.get? name with
  | none => rfl
  | some f =>
      have hf := hr name f hf
      dsimp only
      rw [List.length_map, Node.literals?_move]
      split
      · rfl
      · refine mapBoth_bind (validate_move hf p _) fun _ => ?_
        refine mapBoth_bind (replacement?_move hf p args) fun m? => ?_
        cases m? with
        | some m => exact hagain m
        | none => exact congrArg Except.ok (Node.move_call σ name p args _).symm

/-! ## 2. Expressions -/

mutual

theorem optimizeWith_move (hr : r.IgnoresPlaces) {again : Nat → Node → Except CompileError Node}
    (hagain : ∀ d n, again d (n.move σ) =
      mapBoth (CompileError.move σ) (Node.move σ) (again d n)) :
    ∀ (n : Node) (d : Nat), optimizeWith r o again d (n.move σ) =
      mapBoth (CompileError.move σ) (Node.move σ) (optimizeWith r o again d n)
  | .literal v p, d => by
      rw [Node.move, optimizeWith, optimizeWith]
      split <;> rfl
  | .call name p args memo, d => by
      rw [Node.move_call, optimizeWith, optimizeWith]
      split
      · rfl
      · refine mapBoth_bind (optimizeAllWith_move hr hagain args (d + 1)) fun args' => ?_
        exact optimizeCall_move hr (hagain d) name p args' memo

theorem optimizeAllWith_move (hr : r.IgnoresPlaces)
    {again : Nat → Node → Except CompileError Node}
    (hagain : ∀ d n, again d (n.move σ) =
      mapBoth (CompileError.move σ) (Node.move σ) (again d n)) :
    ∀ (ns : List Node) (d : Nat), optimizeAllWith r o again d (ns.map (Node.move σ)) =
      mapBoth (CompileError.move σ) (List.map (Node.move σ)) (optimizeAllWith r o again d ns)
  | [], _ => rfl
  | n :: ns, d => by
      rw [List.map_cons, optimizeAllWith, optimizeAllWith]
      refine mapBoth_bind (optimizeWith_move hr hagain n d) fun n' => ?_
      exact mapBoth_bind (optimizeAllWith_move hr hagain ns d) fun ns' => rfl

end

/-- **What becomes of an expression moves along with it**, whatever the budget. The induction is on the
    budget: a replacement has the smaller one. -/
theorem optimizeAt_move (hr : r.IgnoresPlaces) (budget : Nat) : ∀ (d : Nat) (n : Node),
    optimizeAt r o budget d (n.move σ) =
      mapBoth (CompileError.move σ) (Node.move σ) (optimizeAt r o budget d n) := by
  induction budget with
  | zero =>
      intro d n
      rw [optimizeAt, optimizeAt, Node.place_move]
      rfl
  | succ budget ih => exact fun d n => optimizeWith_move hr ih n d

theorem optimizeNode_move (hr : r.IgnoresPlaces) (n : Node) :
    optimizeNode r o (n.move σ) =
      mapBoth (CompileError.move σ) (Node.move σ) (optimizeNode r o n) := by
  unfold optimizeNode budgetFor
  rw [Node.size_move]
  exact optimizeAt_move hr _ 1 n

/-! ## 3. Programs -/

mutual

/-- Whether an expression can be left out does not depend on its places. -/
theorem isDroppable_move : ∀ n : Node, isDroppable r (n.move σ) = isDroppable r n
  | .literal _ _ => rfl
  | .call _ _ args _ => congrArg (_ && ·) (areDroppable_move args)

theorem areDroppable_move : ∀ ns : List Node, areDroppable r (Node.moveAll σ ns) = areDroppable r ns
  | [] => rfl
  | n :: ns => by
      rw [Node.moveAll, areDroppable, areDroppable, isDroppable_move n, areDroppable_move ns]

end

/-- **What becomes of a program moves along with it.** -/
theorem optimize_move (hr : r.IgnoresPlaces) : ∀ p : Program,
    optimize r o (p.map (Node.move σ)) =
      mapBoth (CompileError.move σ) (List.map (Node.move σ)) (optimize r o p)
  | [] => rfl
  | [n] => mapBoth_bind (optimizeNode_move hr n) fun _ => rfl
  | n :: m :: p => by
      have hrest := optimize_move hr (m :: p)
      rw [List.map_cons, List.map_cons, optimize_cons_cons, optimize_cons_cons]
      refine mapBoth_bind (optimizeNode_move hr n) fun n' => ?_
      refine mapBoth_bind hrest fun p' => ?_
      rw [isDroppable_move]
      split <;> rfl

end Optimizer

end CallScript
