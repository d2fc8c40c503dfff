import CallScript.Proofs.Optimizer.Settled
import CallScript.Proofs.Run.Keys

/-!
# Optimized programs do not go wrong

What the optimizer has checked is not found wrong when the program runs: a settled expression names
functions that exist, with numbers of arguments that they take, at levels that are accepted. So all
that can fail is the work of a function, with an exception.

* `avoids_evalAt_of_settled` is the induction on the expression, over any session: whatever results
  are kept in it and whatever its host offers;
* `raises_of_optimizeBy` is the result for programs, whatever functions the registry has and
  whatever their calls are replaced by.
-/

namespace CallScript

/-- A call of a function of the registry raised the exception. -/
def Registry.Raises (r : Registry) (e : Exception) : Prop :=
  ∃ name f args p w, r.get? name = some f ∧ (f.execute args p w).1 = .error e

/-- The failure is an exception that a call of a function of the registry raised. -/
def RuntimeError.RaisedIn (r : Registry) : RuntimeError → Prop
  | .exception e => r.Raises e
  | _ => False

namespace Evaluator

variable {r : Registry}

/-- The work of a call fails only with an exception that its function raised. -/
theorem avoids_execute_of_get? {name : String} {f : Function} (hf : r.get? name = some f)
    (args : List Value) (p : Place) :
    Run.Avoids (fun e => ¬ e.RaisedIn r) (execute f name args p) := by
  intro s e s' he
  rw [result_execute] at he
  obtain ⟨x, hx, rfl⟩ := mapError_eq_error (Prod.mk.inj he).1
  have hraises : r.Raises x := ⟨name, f, args, p, s.world.note name args, hf, hx⟩
  exact Classical.not_not.2 hraises

end Evaluator

namespace Optimizer

open Evaluator

variable {r : Registry} {o : Options}

mutual

/-- **A settled expression fails only with an exception** that one of its calls raised. A result
    that is kept does no harm: it is a value, whether or not it is the right one. -/
theorem avoids_evalAt_of_settled : ∀ (n : Node) {d : Nat}, Settled r o d n →
    Run.Avoids (fun e => ¬ e.RaisedIn r) (evalAt r o.maxDepth d n)
  | .literal v p, d, h => by
      rw [evalAt_literal h.1]
      exact .pure _
  | .call name p args memo, d, ⟨⟨hd, f, hf, ha, _⟩, hargs⟩ => by
      have hcall : Run.Avoids (fun e => ¬ e.RaisedIn r)
          (evalCall r o.maxDepth d name p args) := by
        rw [evalCall_of_callee (callee_of_get? hf p ha)]
        have hvalues := avoids_evalAllAt_of_settled args hargs
        exact hvalues.bind fun vs => avoids_execute_of_get? hf vs p
      cases memo with
      | none =>
          rw [evalAt_call_none hd]
          exact hcall
      | some key =>
          rw [evalAt_call_some hd]
          exact avoids_remember hcall

theorem avoids_evalAllAt_of_settled : ∀ (ns : List Node) {d : Nat}, AllSettled r o d ns →
    Run.Avoids (fun e => ¬ e.RaisedIn r) (evalAllAt r o.maxDepth d ns)
  | [], _, _ => .pure _
  | n :: ns, _, h =>
      (avoids_evalAt_of_settled n h.1).bind fun _ =>
        (avoids_evalAllAt_of_settled ns h.2).bind fun _ => .pure _

end

/-- Settled statements fail only with an exception that one of their calls raised. -/
theorem avoids_evalFrom_of_settled : ∀ (p : Program) (last : Value),
    (∀ n ∈ p, Settled r o 1 n) →
    Run.Avoids (fun e => ¬ e.RaisedIn r) (evalFrom r o.maxDepth last p)
  | [], _, _ => .pure _
  | n :: ns, _, h => by
      obtain ⟨hn, hns⟩ := List.forall_mem_cons.1 h
      exact (avoids_evalAt_of_settled n hn).bind fun v => avoids_evalFrom_of_settled ns v hns

/-- **All that an optimized program can fail with is an exception** that a call of one of its
    functions raised: no name is unknown, no number of arguments is wrong and no level is too deep,
    in any session. -/
theorem raises_of_optimizeBy {budget : Node → Nat} {p q : Program}
    (h : optimizeBy r o budget p = .ok q) {s s' : Session} {e : RuntimeError}
    (he : (eval r o.maxDepth q).result s = (.error e, s')) :
    ∃ x, e = .exception x ∧ r.Raises x := by
  have hsettled := (settledProgram_optimizeBy h).1.settled
  have hraised := Classical.not_not.1 (avoids_evalFrom_of_settled q .null hsettled s e s' he)
  cases e with
  | exception x => exact ⟨x, rfl, hraised⟩
  | notDefined p name => exact hraised.elim
  | wrongArgumentCount p name expected got => exact hraised.elim
  | nestingTooDeep p limit => exact hraised.elim

/-- A statement that is left out is replaced first, and the last one raises what could not be found
    before. -/
theorem raises_of_optimizeBy_renamed :
    ∃ x, RuntimeError.exception ⟨.notArray "int", default⟩ = .exception x ∧ quoting.Raises x := by
  have h : optimizeBy quoting {} (fun _ => 2)
      [.call "quote" default [.literal (.string ".") default] none,
        .call "array_get" default [.literal (.integer 1) default, .literal .null default] none] =
      .ok [.call "array_get" default [.literal (.integer 1) default, .literal .null default]
        none] := by
    cbv
  have hget : quoting.get? "array_get" = some .arrayGet := Registry.get?_extend_empty _ _
  have he : (eval quoting 128 [.call "array_get" default
      [.literal (.integer 1) default, .literal .null default] none]).result
      (.fresh Environment.empty) =
      (.error (.exception ⟨.notArray "int", default⟩),
        ⟨∅, (World.fresh Environment.empty).note "array_get" [.integer 1, .null]⟩) := by
    simp [eval, evalFrom, evalNode, evalAt, evalAllAt, callee, hget, result_execute,
      Function.arrayGet, Function.ofPure, Function.raiseAt, Function.lookUp, Function.arg,
      Arity.accepts, Session.fresh, World.fresh, World.note, Literal.toValue, Value.kindName,
      mapError_error]
  exact raises_of_optimizeBy h he

end Optimizer

end CallScript
