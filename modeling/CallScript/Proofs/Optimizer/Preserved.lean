import CallScript.Proofs.Function.Rewrite
import CallScript.Proofs.Optimizer.Derivation

/-!
# Properties that the optimizer keeps

The optimizer does two things to a call: it gives the call optimized arguments and a memo key, or it
puts another expression in its place. A property of nodes that survives both (`Optimizer.Preserved`)
goes from the nodes of a program to those of the optimized program.

* `Becomes.every` and `BecomesProgram.every` carry the property through;
* `preserved_standard`: with the functions of the language, there is little to check about what is put
  in the place of a call.
-/

namespace CallScript.Optimizer

open Node (EveryIn)

variable {r : Registry} {o : Options}

/-! ## 1. Expressions and programs -/

/-- The optimizer keeps the property of nodes: a call whose arguments were optimized has it still, with
    the memo key that the call gets, and if the call is replaced, all nodes of the replacement have
    it. -/
structure Preserved (r : Registry) (o : Options) (P : Nat → Node → Prop) : Prop where
  call : ∀ {d name p args args' memo f}, r.get? name = some f → BecomeAll r o (d + 1) args args' →
    P d (.call name p args memo) → EveryIn P (d + 1) args' →
    P d (.call name p args' (memoFor o f name (Node.literals? args') memo))
  replaced : ∀ {d name p args args' memo f m}, r.get? name = some f →
    f.allows .rewritten = true → BecomeAll r o (d + 1) args args' →
    f.rewrite args' p = .ok (some m) → P d (.call name p args memo) → EveryIn P (d + 1) args' → m.Every P d

section

variable {P : Nat → Node → Prop}

mutual

/-- **A property that the optimizer keeps** goes from all nodes of an expression to all nodes of what it
    becomes. -/
theorem Becomes.every (hP : Preserved r o P) : ∀ {n n' : Node} {d : Nat}, Becomes r o d n n' →
    n.Every P d → n'.Every P d
  | _, _, _, .literal _ _ _, h => h
  | _, _, _, .call _ _ _ _ hargs hf _, h =>
      have hall := hargs.every hP h.2
      ⟨hP.call hf hargs h.1 hall, hall⟩
  | _, _, _, .replaced _ _ _ _ hargs hf _ hw hm hn, h =>
      hn.every hP (hP.replaced hf hw hargs hm h.1 (hargs.every hP h.2))

theorem BecomeAll.every (hP : Preserved r o P) : ∀ {ns ns' : List Node} {d : Nat},
    BecomeAll r o d ns ns' → EveryIn P d ns → EveryIn P d ns'
  | _, _, _, .nil _, _ => trivial
  | _, _, _, .cons h hs, hn => ⟨h.every hP hn.1, hs.every hP hn.2⟩

end

end

/-- A property that the optimizer keeps goes from the statements of a program to those that are left. -/
theorem BecomesProgram.every {P : Nat → Node → Prop} (hP : Preserved r o P) :
    ∀ {p p' : Program}, BecomesProgram r o p p' → (∀ n ∈ p, n.Every P 1) → ∀ n ∈ p', n.Every P 1
  | _, _, .nil, h => h
  | _, _, .last h, hp => List.forall_mem_singleton.2 (h.every hP (hp _ List.mem_cons_self))
  | _, _, .keep h hs, hp =>
      List.forall_mem_cons.2
        ⟨h.every hP (hp _ List.mem_cons_self), hs.every hP (List.forall_mem_cons.1 hp).2⟩
  | _, _, .drop _ _ _ hs, hp => hs.every hP (List.forall_mem_cons.1 hp).2

/-! ## 2. The functions of the language -/

/-- **What is put in the place of a call of the language** is a call of `replace` or `split` without a
    memo key, and its arguments are literals or arguments that the call had. -/
theorem preserved_standard {P : Nat → Node → Prop}
    (hcall : ∀ {d name p args args' memo f}, Registry.standard.get? name = some f →
      BecomeAll .standard o (d + 1) args args' → P d (.call name p args memo) →
      P d (.call name p args' (memoFor o f name (Node.literals? args') memo)))
    (hliteral : ∀ d v p, P d (.literal v p))
    (hplain : ∀ d name p args, name = "replace" ∨ name = "split" → P d (.call name p args none)) :
    Preserved .standard o P := by
  refine ⟨fun hf hargs h _ => hcall hf hargs h, fun hf _ _ hm _ hall => ?_⟩
  obtain ⟨name, args, rfl, hname, hargs⟩ :=
    Function.shape_of_rewrite (Registry.mem_builtins hf).1 hm
  refine ⟨hplain _ name _ args hname, Node.everyIn_iff.2 fun m hm => ?_⟩
  rcases hargs m hm with hm | ⟨v, q, rfl⟩
  · exact Node.everyIn_iff.1 hall m hm
  · exact hliteral _ v q

end CallScript.Optimizer
