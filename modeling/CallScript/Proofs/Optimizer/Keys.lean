import CallScript.Proofs.Optimizer.Preserved
import CallScript.Proofs.Optimizer.Settled

/-!
# Memo keys are given again

A program that was read has no memo keys; it gets them from the optimizer. If those of an optimized program
are left out again (`Node.withoutKeys`), the optimizer gives the same ones, and does nothing else.

* `preserved_keysGiven`: every key of an optimized program is the one that its call is given;
* `optimize_withoutKeys`: so an optimized program comes from itself without keys.
-/

namespace CallScript

/-! ## 1. Trees without keys -/

namespace Node

mutual

/-- The tree with its memo keys left out. -/
def withoutKeys : Node → Node
  | .literal v p => .literal v p
  | .call name p args _ => .call name p (withoutKeysAll args) none

def withoutKeysAll : List Node → List Node
  | [] => []
  | n :: ns => n.withoutKeys :: withoutKeysAll ns

end

mutual

/-- Where there are no keys, none are left out. -/
theorem withoutKeys_of_unkeyed : ∀ {n : Node} {d : Nat},
    n.Every (fun _ m => m.memo? = none) d → n.withoutKeys = n
  | .literal _ _, _, _ => rfl
  | .call name p args memo, d, h => by
      obtain rfl : memo = none := h.1
      rw [withoutKeys, withoutKeysAll_of_unkeyed h.2]

theorem withoutKeysAll_of_unkeyed : ∀ {ns : List Node} {d : Nat},
    EveryIn (fun _ m => m.memo? = none) d ns → withoutKeysAll ns = ns
  | [], _, _ => rfl
  | n :: ns, d, h => by
      rw [withoutKeysAll, withoutKeys_of_unkeyed h.1, withoutKeysAll_of_unkeyed h.2]

end

end Node

namespace Optimizer

open Node (literals? EveryIn)

variable {r : Registry} {o : Options}

/-! ## 2. Keys that are given -/

/-- If the call has a memo key, it is the one that the optimizer gives it. -/
def KeysGiven (r : Registry) (o : Options) (_ : Nat) : Node → Prop
  | .literal _ _ => True
  | .call name _ args memo => ∀ key, memo = some key →
    ∃ f, r.get? name = some f ∧ memoFor o f name (literals? args) none = some key

/-- **The optimizer leaves no other keys than it gives.** -/
theorem preserved_keysGiven : Preserved .standard o (KeysGiven .standard o) := by
  refine preserved_standard (fun {d name p args args' memo f} hf hargs h => ?_)
    (fun _ _ _ => trivial) fun _ _ _ _ _ => nofun
  intro key hkey
  cases memo with
  | none => exact ⟨f, hf, hkey⟩
  | some key' =>
      cases hkey
      obtain ⟨g, hg, hgiven⟩ := h key rfl
      -- the arguments are literals, and so they stayed what they were
      obtain ⟨-, ls, hls, -⟩ := memoFor_none_eq_some hgiven
      rw [hargs.eq_of_literals hls]
      exact ⟨g, hg, hgiven⟩

/-! ## 3. The optimizer on trees without keys -/

mutual

/-- **A settled expression comes from itself without keys**, wherever replacements would go. -/
theorem optimizeWith_withoutKeys {again : Nat → Node → Except CompileError Node} :
    ∀ (n : Node) {d : Nat}, Settled r o d n → n.Every (KeysGiven r o) d →
      optimizeWith r o again d n.withoutKeys = .ok n
  | .literal v p, d, h, _ => by
      rw [Node.withoutKeys, optimizeWith, if_neg (Nat.not_lt.2 h.1)]
  | .call name p args memo, d, ⟨⟨hd, f, hf, ha, hv, hm, hmemo⟩, hargs⟩, ⟨hkey, hkeys⟩ => by
      have hgiven : memoFor o f name (literals? args) none = memo := by
        cases memo with
        | none => exact hmemo
        | some key =>
            obtain ⟨g, hg, hgiven⟩ := hkey key rfl
            obtain rfl : f = g := Option.some.inj (hf.symm.trans hg)
            exact hgiven
      rw [Node.withoutKeys, optimizeWith, if_neg (Nat.not_lt.2 hd),
        optimizeAllWith_withoutKeys args hargs hkeys]
      show optimizeCall r o (again d) name p args none = _
      rw [optimizeCall_of_accepts hf ha, hv, hm, hgiven]
      rfl

theorem optimizeAllWith_withoutKeys {again : Nat → Node → Except CompileError Node} :
    ∀ (ns : List Node) {d : Nat}, AllSettled r o d ns → EveryIn (KeysGiven r o) d ns →
      optimizeAllWith r o again d (Node.withoutKeysAll ns) = .ok ns
  | [], _, _, _ => rfl
  | n :: ns, _, h, hkeys => by
      rw [Node.withoutKeysAll, optimizeAllWith, optimizeWith_withoutKeys n h.1 hkeys.1,
        optimizeAllWith_withoutKeys ns h.2 hkeys.2]
      rfl

end

theorem optimizeNode_withoutKeys {n : Node} (h : Settled r o 1 n) (hkeys : n.Every (KeysGiven r o) 1) :
    optimizeNode r o n.withoutKeys = .ok n := by
  obtain ⟨budget, hbudget⟩ := budgetFor_eq_succ r n.withoutKeys
  unfold optimizeNode
  rw [hbudget]
  exact optimizeWith_withoutKeys n h hkeys

/-- A settled program comes from itself without keys. -/
theorem optimize_withoutKeys_of_settled {q : Program} (h : SettledProgram r o q) :
    (∀ n ∈ q, n.Every (KeysGiven r o) 1) → optimize r o (q.map Node.withoutKeys) = .ok q := by
  induction h with
  | nil => exact fun _ => rfl
  | last hn =>
      intro hkeys
      rw [List.map_singleton, optimize,
        optimizeNode_withoutKeys hn (List.forall_mem_singleton.1 hkeys)]
      rfl
  | keep hn hkeep _ ih =>
      intro hkeys
      obtain ⟨hkey, hkeys⟩ := List.forall_mem_cons.1 hkeys
      have hrest := ih hkeys
      rw [List.map_cons] at hrest
      rw [List.map_cons, List.map_cons, optimize_cons_cons, optimizeNode_withoutKeys hn hkey, hrest]
      simp only [bind, Except.bind, hkeep]
      rfl

/-- **An optimized program comes from itself without keys**, if the program that it was made of had
    none. -/
theorem optimize_withoutKeys {p q : Program} (hp : ∀ n ∈ p, n.Unkeyed)
    (h : optimize .standard o p = .ok q) :
    optimize .standard o (q.map Node.withoutKeys) = .ok q := by
  have hnone : ∀ n ∈ p, n.Every (KeysGiven .standard o) 1 := by
    intro n hn
    refine (hp n hn).imp fun d m hm => ?_
    cases m with
    | literal v p => trivial
    | call name p args memo =>
        intro key hkey
        cases hm.symm.trans hkey
  have hkeys := (becomesProgram_optimize h).every preserved_keysGiven hnone
  rw [← optimizeBy_budgetFor] at h
  exact optimize_withoutKeys_of_settled (settledProgram_optimizeBy h).1 hkeys

end Optimizer

end CallScript
