import CallScript.Proofs.Function.Rewrite
import CallScript.Proofs.Node.Grammar
import CallScript.Proofs.Optimizer.Derivation
import CallScript.Proofs.Run.Result

/-!
# The limit on nesting

The reader, the optimizer and the evaluator share one limit, but they do not count alike. The
optimizer and the evaluator count the levels of the tree. The reader counts what is open around an
expression, and in `x[i]` nothing is open around `x`, although the tree has it below a call.

* `avoids_evalAt` and `fits_optimizeAt`: a tree that fits below the limit is never refused for its
  levels, neither when it runs nor when it is optimized.
* `limitBounds_iff`: what the reader takes from tokens is safe from such a refusal exactly when the
  tokens write no tree that is higher than the limit; `limitBounds_of_bracketless`: without an index
  they never do.
* `accepted_too_deep`: there are tokens that the reader takes at a limit of three levels, and that
  both the optimizer and the evaluator then refuse.
-/

namespace CallScript

open Node (Within)

/-! ## 1. The evaluator -/

/-- The run failed for the levels of an expression. -/
def RuntimeError.IsTooDeep : RuntimeError → Prop
  | .nestingTooDeep _ _ => True
  | _ => False

namespace Evaluator

variable (r : Registry) {limit : Nat}

mutual

/-- **A tree that fits below the limit runs without a failure for its levels.** -/
theorem avoids_evalAt : ∀ (n : Node) {d : Nat}, n.Every (Within limit) d →
    Run.Avoids RuntimeError.IsTooDeep (evalAt r limit d n)
  | .literal v p, d, h => by
      rw [evalAt_literal h]
      exact .pure _
  | .call name p args memo, d, h => by
      have hcall : Run.Avoids RuntimeError.IsTooDeep (evalCall r limit d name p args) :=
        .bind (avoids_callee id fun _ => id) fun _ =>
          .bind (avoids_evalAllAt args h.2) fun _ => avoids_execute fun _ => id
      cases memo with
      | none =>
          rw [evalAt_call_none h.1]
          exact hcall
      | some key =>
          rw [evalAt_call_some h.1]
          exact avoids_remember hcall

theorem avoids_evalAllAt : ∀ (ns : List Node) {d : Nat}, Node.EveryIn (Within limit) d ns →
    Run.Avoids RuntimeError.IsTooDeep (evalAllAt r limit d ns)
  | [], _, _ => .pure _
  | n :: ns, _, h =>
      .bind (avoids_evalAt n h.1) fun _ => .bind (avoids_evalAllAt ns h.2) fun _ => .pure _

end

/-- Statements that fit below the limit run without a failure for their levels. -/
theorem avoids_evalFrom : ∀ (p : Program) (last : Value),
    (∀ n ∈ p, n.Every (Within limit) 1) →
    Run.Avoids RuntimeError.IsTooDeep (evalFrom r limit last p)
  | [], _, _ => .pure _
  | n :: ns, _, h =>
      .bind (avoids_evalAt r n (h n List.mem_cons_self)) fun v =>
        avoids_evalFrom ns v fun m hm => h m (List.mem_cons_of_mem _ hm)

end Evaluator

/-! ## 2. The optimizer -/

/-- The program was refused for the levels of an expression. -/
def CompileError.IsTooDeep : CompileError → Prop
  | .nestingTooDeep _ _ => True
  | _ => False

/-- No function is replaced by a deeper expression. -/
def Registry.KeepsDepth (r : Registry) : Prop :=
  ∀ name f, r.get? name = some f → ∀ args place m, f.rewrite args place = .ok (some m) →
    m.depth ≤ Node.depthAll args + 1

/-- **The functions of the language are replaced by nothing deeper.** -/
theorem Registry.keepsDepth_standard : Registry.standard.KeepsDepth := by
  intro name f hf args place m hm
  rcases Function.rewrite_eq_some (mem_builtins hf).1 hm with ⟨-, h⟩ | ⟨-, h⟩
  · obtain ⟨_, _, _, _, subject, _, _, _, _, rfl, -, -, -, -, -, rfl⟩ :=
      Function.replaceRewrite_eq_some h
    simp only [Node.depth, Node.depthAll]
    omega
  · obtain ⟨_, _, rest, _, _, rfl, -, -, -, rfl⟩ := Function.splitRewrite_eq_some h
    exact Nat.le_refl _

namespace Optimizer

variable {r : Registry} {o : Options}

/-- What the optimizer answers is in order as far as levels go: trees that fit below the limit, or
    an error for another reason. -/
def Fits {α : Type} (fit : α → Prop) : Except CompileError α → Prop
  | .ok a => fit a
  | .error e => ¬ e.IsTooDeep

section

variable {α β : Type} {fit : α → Prop} {fit' : β → Prop}

theorem Fits.bind {x : Except CompileError α} {f : α → Except CompileError β} (hx : Fits fit x)
    (hf : ∀ a, fit a → Fits fit' (f a)) : Fits fit' (x >>= f) := by
  cases x with
  | error e => exact hx
  | ok a => exact hf a hx

end

/-- A call whose arguments fit is answered by what fits, if its replacement is. -/
theorem fits_optimizeCall (hr : r.KeepsDepth) {d : Nat} {again : Node → Except CompileError Node}
    (ha : ∀ m, m.Every (Within o.maxDepth) d → Fits (Node.Every (Within o.maxDepth) d) (again m))
    (hd : d ≤ o.maxDepth) (name : String) (p : Place) {args : List Node}
    (hargs : Node.EveryIn (Within o.maxDepth) (d + 1) args) (memo : Option MemoKey) :
    Fits (Node.Every (Within o.maxDepth) d) (optimizeCall r o again name p args memo) := by
  cases optimizeCall_cases r o name p args memo with
  | @refused e he hcall =>
      rw [hcall]
      cases e with
      | nestingTooDeep => exact he.elim
      | _ => exact id
  | kept _ _ _ _ hcall =>
      rw [hcall]
      exact ⟨hd, hargs⟩
  | @replaced f m hf _ _ hm hcall =>
      rw [hcall]
      have hdepth := hr name f hf args p m hm
      have hfit := (Node.everyIn_within_iff args).1 hargs
      exact ha m ((Node.every_within_iff m).2 (by omega))

mutual

theorem fits_optimizeWith (hr : r.KeepsDepth) {again : Nat → Node → Except CompileError Node}
    (ha : ∀ d m, m.Every (Within o.maxDepth) d →
      Fits (Node.Every (Within o.maxDepth) d) (again d m)) :
    ∀ (n : Node) {d : Nat}, n.Every (Within o.maxDepth) d →
      Fits (Node.Every (Within o.maxDepth) d) (optimizeWith r o again d n)
  | .literal v p, d, h => by
      rw [optimizeWith, if_neg (Nat.not_lt.2 h)]
      exact h
  | .call name p args memo, d, h => by
      rw [optimizeWith, if_neg (Nat.not_lt.2 h.1)]
      exact (fits_optimizeAllWith hr ha args h.2).bind fun args' hargs' =>
        fits_optimizeCall hr (ha d) h.1 name p hargs' memo

theorem fits_optimizeAllWith (hr : r.KeepsDepth) {again : Nat → Node → Except CompileError Node}
    (ha : ∀ d m, m.Every (Within o.maxDepth) d →
      Fits (Node.Every (Within o.maxDepth) d) (again d m)) :
    ∀ (ns : List Node) {d : Nat}, Node.EveryIn (Within o.maxDepth) d ns →
      Fits (Node.EveryIn (Within o.maxDepth) d) (optimizeAllWith r o again d ns)
  | [], _, _ => trivial
  | n :: ns, _, h =>
      (fits_optimizeWith hr ha n h.1).bind fun _ hn =>
        (fits_optimizeAllWith hr ha ns h.2).bind fun _ hns => ⟨hn, hns⟩

end

/-- **A tree that fits below the limit is optimized to one that does**, or refused for another
    reason than its levels. -/
theorem fits_optimizeAt (hr : r.KeepsDepth) (budget : Nat) : ∀ (d : Nat) (n : Node),
    n.Every (Within o.maxDepth) d →
      Fits (Node.Every (Within o.maxDepth) d) (optimizeAt r o budget d n) := by
  induction budget with
  | zero => exact fun _ _ _ => id
  | succ budget ih => exact fun d n h => fits_optimizeWith hr ih n h

/-- Statements that fit below the limit are optimized to such, or refused for another reason. -/
theorem fits_optimize (hr : r.KeepsDepth) : ∀ p : Program,
    (∀ n ∈ p, n.Every (Within o.maxDepth) 1) →
      Fits (fun p' => ∀ n ∈ p', Node.Every (Within o.maxDepth) 1 n) (optimize r o p)
  | [], _ => fun _ h => (List.not_mem_nil h).elim
  | [n], h =>
      (fits_optimizeAt hr _ 1 n (h n List.mem_cons_self)).bind fun n' hn' m hm => by
        rw [List.mem_singleton.1 hm]
        exact hn'
  | n :: m :: ns, h =>
      (fits_optimizeAt hr _ 1 n (h n List.mem_cons_self)).bind fun n' hn' =>
        (fits_optimize hr (m :: ns) fun k hk => h k (List.mem_cons_of_mem _ hk)).bind
          fun p' hp' => by
            show ∀ k ∈ ite _ _ _, _
            split
            · exact hp'
            · exact List.forall_mem_cons.2 ⟨hn', hp'⟩

end Optimizer

/-! ## 3. What the reader takes -/

namespace Node

open Written

/-- Whatever the reader takes from the tokens fits below its limit, and so neither the optimizer nor
    the evaluator refuses it for its levels at the same limit. -/
def LimitBounds (limit : Nat) (ts : List Token) : Prop :=
  ∀ p, parse limit ts = .ok p →
    (∀ n ∈ p, n.Every (Within limit) 1) ∧
    (∀ r : Registry, r.KeepsDepth → ∀ o : Optimizer.Options, o.maxDepth = limit →
      ∀ e, Optimizer.optimize r o p = .error e → ¬ e.IsTooDeep) ∧
    (∀ (r : Registry) (s : Session) e s',
      (Evaluator.eval r limit p).result s = (.error e, s') → ¬ e.IsTooDeep)

/-- Trees that fit below the limit are refused for their levels by nobody. -/
theorem limitBounds_of_within {limit : Nat} {ts : List Token}
    (h : ∀ p, parse limit ts = .ok p → ∀ n ∈ p, n.Every (Within limit) 1) :
    LimitBounds limit ts := by
  intro p hp
  refine ⟨h p hp, ?_, ?_⟩
  · rintro r hr o rfl e he
    have hfit := Optimizer.fits_optimize hr p (h p hp)
    rw [he] at hfit
    exact hfit
  · intro r s e s' he
    exact Evaluator.avoids_evalFrom r p .null (h p hp) s e s' he

/-- A tree that was written fits below the limit exactly when it is not higher. -/
theorem every_within_node {limit : Nat} (e : Written) :
    e.node.Every (Within limit) 1 ↔ e.height ≤ limit := by
  rw [every_within_iff, depth_node]
  omega

/-- **The limit of the reader bounds what it takes exactly when the tokens write no tree that is
    higher than the limit**, among those whose levels the reader accepts. -/
theorem limitBounds_iff (limit : Nat) (ts : List Token) :
    LimitBounds limit ts ↔
      ∀ es, SpellsProgram es ts → (∀ e ∈ es, e.levels ≤ limit) → ∀ e ∈ es, e.height ≤ limit := by
  constructor
  · intro h es hes hl e he
    have hwithin := (h _ (parse_of_spellsProgram hes hl)).1
    rw [nodes_eq_map] at hwithin
    exact (every_within_node e).1 (hwithin e.node (List.mem_map_of_mem he))
  · intro h
    refine limitBounds_of_within fun p hp n hn => ?_
    obtain ⟨es, hes, rfl, hl⟩ := spellsProgram_of_parse hp
    rw [nodes_eq_map] at hn
    obtain ⟨e, he, rfl⟩ := List.mem_map.1 hn
    exact (every_within_node e).2 (h es hes hl e he)

/-- **Without an index among the tokens, the limit of the reader bounds what it takes.** -/
theorem limitBounds_of_bracketless {limit : Nat} {ts : List Token} (h : Bracketless ts) :
    LimitBounds limit ts := by
  refine limitBounds_of_within fun p hp n hn => ?_
  obtain ⟨es, hes, rfl, hl⟩ := spellsProgram_of_parse hp
  rw [nodes_eq_map] at hn
  obtain ⟨e, he, rfl⟩ := List.mem_map.1 hn
  exact (every_within_node e).2 (Nat.le_trans (hes.height_le_levels h e he) (hl e he))

/-- The tokens of `array(array(7))[0][0]`. -/
def twiceIndexed : List Token :=
  [⟨.ident "array", default⟩, ⟨.leftParen, default⟩, ⟨.ident "array", default⟩,
    ⟨.leftParen, default⟩, ⟨.integer "7", default⟩, ⟨.rightParen, default⟩,
    ⟨.rightParen, default⟩, ⟨.leftBracket, default⟩, ⟨.integer "0", default⟩,
    ⟨.rightBracket, default⟩, ⟨.leftBracket, default⟩, ⟨.integer "0", default⟩,
    ⟨.rightBracket, default⟩]

/-- The tree of `array(array(7))[0][0]`. -/
def twiceIndexedNode : Node :=
  .call "array_get" default
    [.call "array_get" default
      [.call "array" default [.call "array" default [.literal (.integer 7) default] none] none,
       .literal (.integer 0) default] none,
     .literal (.integer 0) default] none

/-- **The reader takes two indexes in a row at a limit of three levels**, the tree has five, and the
    optimizer and the evaluator refuse it. -/
theorem accepted_too_deep :
    parse 3 twiceIndexed = .ok [twiceIndexedNode] ∧ twiceIndexedNode.depth = 5 ∧
      Optimizer.optimize .standard { maxDepth := 3 } [twiceIndexedNode] =
        .error (.nestingTooDeep default 3) ∧
      ((Evaluator.eval .standard 3 [twiceIndexedNode]).result (.fresh Environment.empty)).1 =
        .error (.nestingTooDeep default 3) := by
  refine ⟨rfl, rfl, ?_, ?_⟩
  · obtain ⟨k, hk⟩ : ∃ k, Optimizer.budgetFor .standard twiceIndexedNode = k + 1 :=
      Nat.exists_eq_succ_of_ne_zero (by simp [Optimizer.budgetFor])
    rw [Optimizer.optimize, Optimizer.optimizeNode, hk]
    rfl
  · have hget : Registry.standard.get? "array_get" = some .arrayGet :=
      Registry.get?_name .arrayGet (by simp [Registry.builtins])
    have harray : Registry.standard.get? "array" = some .array :=
      Registry.get?_name .array (by simp [Registry.builtins])
    simp [Evaluator.eval, Evaluator.evalFrom, Evaluator.evalNode, twiceIndexedNode,
      Evaluator.evalAt, Evaluator.evalAllAt, Evaluator.callee, hget, harray, Function.arrayGet,
      Function.array, Function.ofPure, Arity.accepts]

end Node

end CallScript
