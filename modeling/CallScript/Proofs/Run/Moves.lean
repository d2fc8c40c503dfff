import CallScript.Proofs.Function.Moves
import CallScript.Proofs.Run.Keys

/-!
# Runs do not look at places

An expression is evaluated alike wherever it stands: from any session it comes to the same value, or to
the same failure at the image of its place, and it leaves the same session, with the same results kept
and the same lines written (`Run.Moves`).

* `Moves` is kept by the steps of which runs are made, one lemma for each;
* `moves_evalAt` is the induction on the expression, `moves_eval` the result for programs.
-/

namespace CallScript

/-- The failure at the image of its place. -/
def RuntimeError.move (σ : Place → Place) : RuntimeError → RuntimeError
  | notDefined p name => .notDefined (σ p) name
  | wrongArgumentCount p name expected got => .wrongArgumentCount (σ p) name expected got
  | nestingTooDeep p limit => .nestingTooDeep (σ p) limit
  | exception e => .exception (e.move σ)

/-! ## 1. Runs that move -/

namespace Run

variable {α β : Type} {σ : Place → Place}

/-- From any session, the second run comes to what the first one comes to, with the place of a failure
    moved, and it leaves the same session. -/
def Moves (σ : Place → Place) (m m' : Run α) : Prop :=
  ∀ s, m'.result s = ((m.result s).1.mapError (RuntimeError.move σ), (m.result s).2)

theorem Moves.pure (a : α) : Moves σ (Pure.pure a : Run α) (Pure.pure a) := fun _ => rfl

theorem Moves.throw (e : RuntimeError) :
    Moves σ (throw e : Run α) (MonadExcept.throw (e.move σ)) := fun _ => rfl

theorem Moves.bind {m m' : Run α} {k k' : α → Run β} (hm : Moves σ m m')
    (hk : ∀ a, Moves σ (k a) (k' a)) : Moves σ (m >>= k) (m' >>= k') := by
  intro s
  rw [result_bind, result_bind, hm s]
  rcases m.result s with ⟨e | a, t⟩
  · rfl
  · exact hk a t

end Run

namespace Evaluator

open Run

variable {σ : Place → Place} {r : Registry} {limit : Nat}

/-! ## 2. Steps -/

theorem moves_remember (key : MemoKey) {m m' : Run Value} (h : Moves σ m m') :
    Moves σ (remember key m) (remember key m') := by
  intro s
  rw [result_remember, result_remember]
  cases s.memo[key]? with
  | some v => rfl
  | none =>
      dsimp only
      rw [h]
      rcases m.result { s with memo := makeRoom s.memo } with ⟨e | v, t⟩
      · rfl
      · rfl

theorem moves_execute {f : Function} (hf : f.IgnoresPlaces) (name : String) (vs : List Value)
    (p : Place) : Moves σ (execute f name vs p) (execute f name vs (σ p)) := by
  intro s
  rw [result_execute, result_execute, hf.execute]
  rcases f.execute vs p (s.world.note name vs) with ⟨e | v, w⟩
  · rfl
  · rfl

/-- A call moves if its arguments do: its name is looked up alike, and its work is done alike. -/
theorem moves_evalCall (hr : r.IgnoresPlaces) {d : Nat} (name : String) (p : Place)
    {args : List Node} (hargs : Moves σ (evalAllAt r limit (d + 1) args)
      (evalAllAt r limit (d + 1) (args.map (Node.move σ)))) :
    Moves σ (evalCall r limit d name p args)
      (evalCall r limit d name (σ p) (args.map (Node.move σ))) := by
  unfold evalCall callee
  rw [List.length_map]
  cases hf : r.get? name with
  | none => exact fun _ => rfl
  | some f =>
      dsimp only
      split
      · rw [pure_bind, pure_bind]
        exact hargs.bind fun vs => moves_execute (hr name f hf) name vs p
      · exact fun _ => rfl

/-! ## 3. Expressions -/

mutual

/-- **An expression is evaluated alike wherever it stands.** -/
theorem moves_evalAt (hr : r.IgnoresPlaces) : ∀ (n : Node) (d : Nat),
    Moves σ (evalAt r limit d n) (evalAt r limit d (n.move σ))
  | .literal v p, d => by
      rw [Node.move, evalAt, evalAt]
      split
      · exact .throw _
      · exact .pure _
  | .call name p args memo, d => by
      rw [Node.move_call]
      by_cases hd : limit < d
      · rw [evalAt_of_lt hd, evalAt_of_lt hd]
        exact .throw _
      · have hd := Nat.not_lt.1 hd
        have hcall : Moves σ (evalCall r limit d name p args)
            (evalCall r limit d name (σ p) (args.map (Node.move σ))) :=
          moves_evalCall hr name p (moves_evalAllAt hr args (d + 1))
        cases memo with
        | none =>
            rw [evalAt_call_none hd, evalAt_call_none hd]
            exact hcall
        | some key =>
            rw [evalAt_call_some hd, evalAt_call_some hd]
            exact moves_remember key hcall

theorem moves_evalAllAt (hr : r.IgnoresPlaces) : ∀ (ns : List Node) (d : Nat),
    Moves σ (evalAllAt r limit d ns) (evalAllAt r limit d (ns.map (Node.move σ)))
  | [], _ => .pure _
  | n :: ns, d =>
      (moves_evalAt hr n d).bind fun _ => (moves_evalAllAt hr ns d).bind fun _ => .pure _

end

/-- **A program runs alike wherever it stands.** -/
theorem moves_eval (hr : r.IgnoresPlaces) (p : Program) :
    Moves σ (eval r limit p) (eval r limit (p.map (Node.move σ))) := by
  unfold eval
  rw [evalFrom_eq, evalFrom_eq]
  exact (moves_evalAllAt hr p 1).bind fun _ => .pure _

end Evaluator

end CallScript
