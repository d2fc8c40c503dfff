import CallScript.Proofs.Optimizer.Derivation
import CallScript.Proofs.Registry.Laws

/-!
# Optimized expressions do the same

With a lawful registry, an expression agrees with what the optimizer makes of it: in any session, the two
have the same value or the same failure, and they write the same lines before it.

* `Becomes.agrees` is the induction on how the optimizer came to its output; an optimized tree is
  well keyed again, so that it may be optimized once more or run with results kept;
* `Becomes.rank_le`: no more calls can be replaced in it than before;
* `BecomesProgram.agrees`: as long as no statement is left out, the same is true of programs.
-/

namespace CallScript.Optimizer

open Run Evaluator Node

variable {r : Registry} {o : Options}

/-! ## 1. Memo keys -/

/-- The memo key of a call with optimized arguments is that of the call. -/
theorem carriesOwnKey_memoFor {d : Nat} {name : String} {p : Place} {args args' : List Node}
    {memo : Option MemoKey} (f : Function) (hkey : CarriesOwnKey (.call name p args memo))
    (hargs : BecomeAll r o d args args') :
    CarriesOwnKey (.call name p args' (memoFor o f name (literals? args') memo)) := by
  intro key hmemo
  have hmemo : memoFor o f name (literals? args') memo = some key := hmemo
  cases memo with
  | some key' =>
      have hmemo : some key' = some key := hmemo
      cases hmemo
      have hk := hkey key rfl
      obtain ⟨ls, hls, rfl⟩ := memoKey?_call_eq_some hk
      rw [hargs.eq_of_literals hls]
      exact hk
  | none =>
      obtain ⟨-, ls, hls, rfl⟩ := memoFor_none_eq_some hmemo
      exact congrArg (Option.map (MemoKey.mk name)) hls

/-- The memo key of a call with optimized arguments is its own. -/
theorem ownKeyed_memoFor {d : Nat} {name : String} {p : Place} {args args' : List Node}
    {memo : Option MemoKey} {f : Function} (hf : r.get? name = some f)
    (hkey : OwnKeyed r (.call name p args memo)) (hargs : BecomeAll r o d args args') :
    OwnKeyed r (.call name p args' (memoFor o f name (literals? args') memo)) := by
  intro key hmemo
  refine ⟨carriesOwnKey_memoFor f hkey.carriesOwnKey hargs key hmemo, fun g hg => ?_⟩
  have hmemo : memoFor o f name (literals? args') memo = some key := hmemo
  cases memo with
  | some key' =>
      have hmemo : some key' = some key := hmemo
      cases hmemo
      exact (hkey key rfl).2 g hg
  | none =>
      obtain ⟨hkept, ls, -, rfl⟩ := memoFor_none_eq_some hmemo
      obtain rfl : f = g := Option.some.inj (hf.symm.trans hg)
      exact hkept

/-- The memo key of a call with optimized arguments is the one that it should have. -/
theorem wellKeyed_memoFor {d : Nat} {name : String} {p : Place} {args args' : List Node}
    {memo : Option MemoKey} {f : Function} (hf : r.get? name = some f)
    (hkey : WellKeyed r o.maxDepth d (.call name p args memo))
    (hargs : BecomeAll r o (d + 1) args args') :
    WellKeyed r o.maxDepth d
      (.call name p args' (memoFor o f name (literals? args') memo)) := by
  have hlt : args' ≠ [] → d < o.maxDepth := by
    intro hne
    have hwithin := hargs.within
    cases args' with
    | nil => exact absurd rfl hne
    | cons n ns => exact hwithin.1.root
  intro key hmemo
  obtain ⟨hk, hkept⟩ := ownKeyed_memoFor hf hkey.ownKeyed hargs key hmemo
  exact ⟨hk, hkept, hlt⟩

/-! ## 2. Expressions -/

mutual

/-- **What comes out of the optimizer is well keyed and agrees with what went in.** -/
theorem Becomes.agrees (hr : r.Lawful) : ∀ {n n' : Node} {d : Nat}, Becomes r o d n n' →
    n.Every (WellKeyed r o.maxDepth) d →
    n'.Every (WellKeyed r o.maxDepth) d ∧
      Agrees r (evalAt r o.maxDepth d n) (evalAt r o.maxDepth d n')
  | _, _, _, .literal v p hd, hkey => ⟨hkey, agrees_evalAt hr.functions (.literal v p) hkey⟩
  | _, _, d, @Becomes.call _ _ _ args args' _ name p memo hd hargs hf ha, hkey => by
      obtain ⟨hkey', hagree⟩ := BecomeAll.agrees hr hargs hkey.2
      have hmemo := wellKeyed_memoFor hf hkey.1 hargs
      refine ⟨⟨hmemo, hkey'⟩, ?_⟩
      exact (agrees_evalCall hr.functions hd hkey.1
          (agrees_evalAllAt hr.functions args hkey.2)).trans
        ((agrees_evalCall_congr hr.functions hargs.length_eq hagree).trans
          (agrees_evalCall hr.functions hd hmemo
            (agrees_evalAllAt hr.functions args' hkey')).symm)
  | _, _, d, @Becomes.replaced _ _ _ args args' _ _ _ name p memo hd hargs hf ha hw hm h,
      hkey => by
      obtain ⟨hkey', hagree⟩ := BecomeAll.agrees hr hargs hkey.2
      have hreplaces := hr.replaces name _ hf hw args' p _ ha hm
      obtain ⟨hout, hrest⟩ := Becomes.agrees hr h (hreplaces.keyed _ _ hkey')
      refine ⟨hout, ?_⟩
      exact (agrees_evalCall hr.functions hd hkey.1
          (agrees_evalAllAt hr.functions args hkey.2)).trans
        ((agrees_evalCall_congr hr.functions hargs.length_eq hagree).trans
          ((hreplaces.agrees _ _ hd hargs.within hkey').trans hrest))

theorem BecomeAll.agrees (hr : r.Lawful) : ∀ {ns ns' : List Node} {d : Nat},
    BecomeAll r o d ns ns' → EveryIn (WellKeyed r o.maxDepth) d ns →
    EveryIn (WellKeyed r o.maxDepth) d ns' ∧
      Agrees r (evalAllAt r o.maxDepth d ns) (evalAllAt r o.maxDepth d ns')
  | _, _, _, .nil _, _ => ⟨trivial, .pure _⟩
  | _, _, _, .cons h hs, hkey => by
      obtain ⟨hn, hagree⟩ := Becomes.agrees hr h hkey.1
      obtain ⟨hns, hagrees⟩ := BecomeAll.agrees hr hs hkey.2
      exact ⟨⟨hn, hns⟩, hagree.bind fun _ => hagrees.bind fun _ => .pure _⟩

end

mutual

/-- **In what comes out of the optimizer, no more calls can be replaced** than in what went in. -/
theorem Becomes.rank_le (hr : r.Lawful) : ∀ {n n' : Node} {d : Nat}, Becomes r o d n n' →
    n'.rank r ≤ n.rank r
  | _, _, _, .literal _ _ _ => Nat.le_refl _
  | _, _, _, .call _ _ _ _ hargs _ _ => Nat.add_le_add_right (BecomeAll.rank_le hr hargs) _
  | _, _, _, @Becomes.replaced _ _ _ args args' _ _ _ name p _ _ hargs hf ha hw hm h => by
      have hargs := BecomeAll.rank_le hr hargs
      have hreplaces := (hr.replaces name _ hf hw args' p _ ha hm).rank
      have hrest := Becomes.rank_le hr h
      show _ ≤ rankAll r args + r.weight name
      omega

theorem BecomeAll.rank_le (hr : r.Lawful) : ∀ {ns ns' : List Node} {d : Nat},
    BecomeAll r o d ns ns' → rankAll r ns' ≤ rankAll r ns
  | _, _, _, .nil _ => Nat.le_refl 0
  | _, _, _, .cons h hs => Nat.add_le_add (Becomes.rank_le hr h) (BecomeAll.rank_le hr hs)

end

/-! ## 3. Programs -/

/-- What comes out for a program is well keyed and fits below the limit. -/
theorem BecomesProgram.keyed (hr : r.Lawful) : ∀ {p p' : Program}, BecomesProgram r o p p' →
    (∀ n ∈ p, n.Every (WellKeyed r o.maxDepth) 1) →
    ∀ n ∈ p', n.Every (WellKeyed r o.maxDepth) 1
  | _, _, .nil, h => h
  | _, _, .last h, hkey =>
      List.forall_mem_singleton.2 (h.agrees hr (hkey _ List.mem_cons_self)).1
  | _, _, .keep h hs, hkey =>
      List.forall_mem_cons.2 ⟨(h.agrees hr (hkey _ List.mem_cons_self)).1,
        hs.keyed hr (List.forall_mem_cons.1 hkey).2⟩
  | _, _, .drop _ _ _ hs, hkey => hs.keyed hr (List.forall_mem_cons.1 hkey).2

/-- **As long as no statement is left out, the optimized program agrees with the program.** -/
theorem BecomesProgram.agrees (hr : r.Lawful) (ho : o.dropUnused = false) :
    ∀ {p p' : Program}, BecomesProgram r o p p' →
      (∀ n ∈ p, n.Every (WellKeyed r o.maxDepth) 1) → ∀ last : Value,
      Agrees r (evalFrom r o.maxDepth last p) (evalFrom r o.maxDepth last p')
  | _, _, .nil, _, _ => .pure _
  | _, _, .last h, hkey, _ => (h.agrees hr (hkey _ List.mem_cons_self)).2.bind fun _ => .pure _
  | _, _, .keep h hs, hkey, _ =>
      (h.agrees hr (hkey _ List.mem_cons_self)).2.bind fun v =>
        hs.agrees hr ho (List.forall_mem_cons.1 hkey).2 v
  | _, _, .drop _ hdrop _ _, _, _ => by
      rw [ho] at hdrop
      cases hdrop

end CallScript.Optimizer
