import CallScript.Proofs.Optimizer.Soundness

/-!
# Programs that work are not refused

With a lawful registry, the optimizer accepts every expression that can be evaluated. Its names and
numbers of arguments are in order then, its levels keep to the limit, and what validation and
replacement would raise is what the call would have raised.

* `optimizeWith_complete` is the induction on the expression, for replacements that are accepted;
* `optimizeAt_complete`: a budget is enough if it is larger than the number of calls that can be
  replaced, and the budget of an expression is;
* `optimize_complete`: a program that runs is accepted.
-/

namespace CallScript.Optimizer

open Run Evaluator Node

variable {r : Registry} {o : Options}

/-! ## 1. One call -/

/-- The values that expressions were evaluated to are values that they may have. -/
theorem fitAll_of_result {limit : Nat} : ∀ (ns : List Node) {d : Nat} {s s' : Session}
    {vs : List Value}, (evalAllAt r limit d ns).result s = (.ok vs, s') → FitAll ns vs
  | [], _, _, _, _, h => by
      cases h
      trivial
  | n :: ns, d, s, s', vs, h => by
      obtain ⟨v, s₁, hv, h⟩ := result_bind_eq_ok h
      obtain ⟨rest, s₂, hrest, h⟩ := result_bind_eq_ok h
      cases h
      refine ⟨?_, fitAll_of_result ns hrest⟩
      cases n with
      | call => trivial
      | literal l q =>
          by_cases hd : limit < d
          · rw [evalAt_of_lt hd] at hv
            cases hv
          · rw [evalAt_literal (Nat.not_lt.1 hd)] at hv
            cases hv
            rfl

theorem eq_of_fitAll_literals : ∀ {ns : List Node} {vs : List Value} {ls : List Literal},
    FitAll ns vs → literals? ns = some ls → vs = ls.map Literal.toValue
  | [], [], _, _, h => by
      cases h
      rfl
  | n :: ns, v :: vs, ls, hfit, h => by
      obtain ⟨l, q, ls', rfl, hls', rfl⟩ := literals?_cons_eq_some h
      rw [eq_of_fitAll_literals hfit.2 hls', hfit.1]
      rfl

/-- A call that succeeds is of a function that takes its arguments; the arguments were evaluated, and
    the function did its work with their values. -/
theorem evalCall_eq_ok {limit d : Nat} {name : String} {p : Place} {args : List Node}
    {s s' : Session} {v : Value} (h : (evalCall r limit d name p args).result s = (.ok v, s')) :
    ∃ f vs s₁ w, r.get? name = some f ∧ f.arity.accepts args.length = true ∧
      (evalAllAt r limit (d + 1) args).result s = (.ok vs, s₁) ∧
      (f.execute vs p w).1 = .ok v := by
  rcases callee_cases r p name args.length with ⟨f, hf, ha, hc⟩ | ⟨e, hc⟩
  · rw [evalCall_of_callee hc] at h
    obtain ⟨vs, s₁, hvs, h⟩ := result_bind_eq_ok h
    exact ⟨f, vs, s₁, s₁.world.note name vs, hf, ha, hvs, execute_eq_ok h⟩
  · rw [evalCall_of_refused hc] at h
    cases h

/-- Validation raises nothing in front of a call that succeeds. -/
theorem validate_complete {f : Function} (hf : f.Lawful) {p : Place} {args : List Node}
    {vs : List Value} (hfit : FitAll args vs) {w : World} {v : Value}
    (hv : (f.execute vs p w).1 = .ok v) : validate f p (literals? args) = .ok () := by
  unfold validate
  cases hls : literals? args with
  | none => rfl
  | some ls =>
      rw [eq_of_fitAll_literals hfit hls] at hv
      dsimp only
      split
      · next hallow =>
        rw [hf.validate hallow _ p w v hv]
        rfl
      · rfl

/-- Neither does a replacement. -/
theorem replacement?_complete {f : Function} (hf : f.Lawful) {p : Place} {args : List Node}
    {vs : List Value} (hfit : FitAll args vs) {w : World} {v : Value}
    (hv : (f.execute vs p w).1 = .ok v) : ∃ m?, replacement? f p args = .ok m? := by
  unfold replacement?
  split
  · next hallow =>
    obtain ⟨m?, hm⟩ := hf.rewrite hallow args vs p w v hfit hv
    rw [hm]
    exact ⟨m?, rfl⟩
  · exact ⟨none, rfl⟩

/-- **A call that succeeds is accepted**, if the replacements with fewer calls to replace are. -/
theorem optimizeCall_complete (hr : r.Lawful) {d : Nat} (hd : d ≤ o.maxDepth)
    {again : Node → Except CompileError Node} {bound : Nat}
    (hagain : ∀ m s v s', m.Every (WellKeyed r o.maxDepth) d → Memo.Sound r s.memo →
      (evalAt r o.maxDepth d m).result s = (.ok v, s') → m.rank r < bound →
      ∃ n, again m = .ok n)
    {name : String} {p : Place} {args : List Node} {memo : Option MemoKey}
    (hkey : EveryIn (WellKeyed r o.maxDepth) (d + 1) args)
    (hwithin : EveryIn (Within o.maxDepth) (d + 1) args) {s s' : Session} {v : Value}
    (hs : Memo.Sound r s.memo)
    (hv : (evalCall r o.maxDepth d name p args).result s = (.ok v, s'))
    (hrank : rankAll r args + r.weight name ≤ bound) :
    ∃ n, optimizeCall r o again name p args memo = .ok n := by
  obtain ⟨f, vs, s₁, w, hf, ha, hvs, hx⟩ := evalCall_eq_ok hv
  have hlawful := hr.functions name f hf
  have hfit := fitAll_of_result args hvs
  obtain ⟨m?, hm⟩ := replacement?_complete hlawful hfit hx
  have hstep : optimizeCall r o again name p args memo =
      m?.elim (.ok (.call name p args (memoFor o f name (literals? args) memo))) again := by
    rw [optimizeCall_of_accepts hf ha, validate_complete hlawful hfit hx, hm]
    rfl
  cases m? with
  | none => exact ⟨_, hstep⟩
  | some m =>
      obtain ⟨hallow, hrewrite⟩ := replacement?_eq_some hm
      have hreplaces := hr.replaces name f hf hallow args p m ha hrewrite
      obtain ⟨t', ht, -⟩ := (hreplaces.agrees _ _ hd hwithin hkey).result_ok hs hv
      rw [hstep]
      exact hagain m s v t' (hreplaces.keyed _ _ hkey) hs ht
        (Nat.lt_of_lt_of_le hreplaces.rank hrank)

/-! ## 2. Whole expressions -/

mutual

/-- **An expression that can be evaluated is accepted**, if the replacements with fewer calls to replace
    are. -/
theorem optimizeWith_complete (hr : r.Lawful) {again : Nat → Node → Except CompileError Node}
    (hbecomes : ∀ d m n, again d m = .ok n → Becomes r o d m n) {bound : Nat}
    (hagain : ∀ d m s v s', m.Every (WellKeyed r o.maxDepth) d → Memo.Sound r s.memo →
      (evalAt r o.maxDepth d m).result s = (.ok v, s') → m.rank r < bound →
      ∃ n, again d m = .ok n) :
    ∀ (n : Node) {d : Nat} {s s' : Session} {v : Value}, n.Every (WellKeyed r o.maxDepth) d →
      Memo.Sound r s.memo → (evalAt r o.maxDepth d n).result s = (.ok v, s') →
      n.rank r ≤ bound → ∃ n', optimizeWith r o again d n = .ok n'
  | .literal l p, d, s, s', v, _, _, hv, _ => by
      by_cases hd : o.maxDepth < d
      · rw [evalAt_of_lt hd] at hv
        cases hv
      · exact ⟨_, if_neg hd⟩
  | .call name p args memo, d, s, s', v, hkey, hs, hv, hrank => by
      by_cases hd : o.maxDepth < d
      · rw [evalAt_of_lt hd] at hv
        cases hv
      · have hle := Nat.not_lt.1 hd
        have hrank : rankAll r args + r.weight name ≤ bound := hrank
        have hself := agrees_evalAllAt hr.functions args hkey.2
        obtain ⟨t', hcall, -⟩ :=
          (agrees_evalCall hr.functions hle hkey.1 hself).result_ok hs hv
        obtain ⟨f, vs, s₁, w, hf, ha, hvs, hx⟩ := evalCall_eq_ok hcall
        obtain ⟨args', hargs⟩ := optimizeAllWith_complete hr hbecomes hagain args hkey.2 hs hvs
          (Nat.le_trans (Nat.le_add_right _ _) hrank)
        have hbecome := becomes_optimizeAllWith hbecomes args hargs
        obtain ⟨hkey', hagree⟩ := hbecome.agrees hr hkey.2
        have hrank' := hbecome.rank_le hr
        have hcongr := @agrees_evalCall_congr r o.maxDepth d hr.functions name p args args'
          hbecome.length_eq hagree
        obtain ⟨t'', hcall', -⟩ := hcongr.result_ok hs hcall
        rw [optimizeWith, if_neg hd, hargs]
        exact optimizeCall_complete hr hle (hagain d) hkey' hbecome.within hs hcall' (by omega)

theorem optimizeAllWith_complete (hr : r.Lawful)
    {again : Nat → Node → Except CompileError Node}
    (hbecomes : ∀ d m n, again d m = .ok n → Becomes r o d m n) {bound : Nat}
    (hagain : ∀ d m s v s', m.Every (WellKeyed r o.maxDepth) d → Memo.Sound r s.memo →
      (evalAt r o.maxDepth d m).result s = (.ok v, s') → m.rank r < bound →
      ∃ n, again d m = .ok n) :
    ∀ (ns : List Node) {d : Nat} {s s' : Session} {vs : List Value},
      EveryIn (WellKeyed r o.maxDepth) d ns → Memo.Sound r s.memo →
      (evalAllAt r o.maxDepth d ns).result s = (.ok vs, s') →
      rankAll r ns ≤ bound → ∃ ns', optimizeAllWith r o again d ns = .ok ns'
  | [], _, _, _, _, _, _, _, _ => ⟨[], rfl⟩
  | n :: ns, d, s, s', vs, hkey, hs, hv, hrank => by
      have hrank : n.rank r + rankAll r ns ≤ bound := hrank
      obtain ⟨v, s₁, hn, hv⟩ := result_bind_eq_ok hv
      obtain ⟨rest, s₂, hrest, -⟩ := result_bind_eq_ok hv
      -- the session behind the first expression keeps what is right
      obtain ⟨t', ht, hs₁⟩ := (agrees_evalAt hr.functions n hkey.1).result_ok hs hn
      cases hn.symm.trans ht
      obtain ⟨n', hn'⟩ := optimizeWith_complete hr hbecomes hagain n hkey.1 hs hn (by omega)
      obtain ⟨ns', hns'⟩ := optimizeAllWith_complete hr hbecomes hagain ns hkey.2 hs₁ hrest
        (by omega)
      refine ⟨n' :: ns', ?_⟩
      rw [optimizeAllWith, hn', hns']
      rfl

end

/-- **A budget is enough if it is larger than the number of calls that can be replaced.** -/
theorem optimizeAt_complete (hr : r.Lawful) (budget : Nat) :
    ∀ (d : Nat) (n : Node) (s : Session) (v : Value) (s' : Session),
      n.Every (WellKeyed r o.maxDepth) d → Memo.Sound r s.memo →
      (evalAt r o.maxDepth d n).result s = (.ok v, s') → n.rank r < budget →
      ∃ n', optimizeAt r o budget d n = .ok n' := by
  induction budget with
  | zero => exact fun _ _ _ _ _ _ _ _ h => (Nat.not_lt_zero _ h).elim
  | succ budget ih =>
      intro d n s v s' hkey hs hv hrank
      exact optimizeWith_complete hr (becomes_optimizeAt budget) ih n hkey hs hv
        (Nat.le_of_lt_succ hrank)

/-- The budget of an expression is enough. -/
theorem rank_lt_budgetFor (r : Registry) (n : Node) : n.rank r < budgetFor r n := by
  have hsize := rank_le_size r n
  have hbudget : (n.size + 1) * 1 ≤ (n.size + 1) * (r.size + 2) :=
    Nat.mul_le_mul_left _ (by omega)
  unfold budgetFor
  omega

/-! ## 3. Programs -/

/-- **A program that runs is accepted by the optimizer.** -/
theorem optimize_complete (hr : r.Lawful) : ∀ (p : Program) {last : Value} {s s' : Session}
    {v : Value}, (∀ n ∈ p, n.Every (WellKeyed r o.maxDepth) 1) → Memo.Sound r s.memo →
    (evalFrom r o.maxDepth last p).result s = (.ok v, s') → ∃ p', optimize r o p = .ok p'
  | [], _, _, _, _, _, _, _ => ⟨[], rfl⟩
  | n :: ns, last, s, s', v, hkey, hs, hv => by
      obtain ⟨hn, hns⟩ := List.forall_mem_cons.1 hkey
      obtain ⟨v₁, s₁, hv₁, hv⟩ := result_bind_eq_ok hv
      obtain ⟨t', ht, hs₁⟩ := (agrees_evalAt hr.functions n hn).result_ok hs hv₁
      cases hv₁.symm.trans ht
      obtain ⟨n', hn'⟩ := optimizeAt_complete hr (budgetFor r n) 1 n s v₁ s₁ hn hs hv₁
        (rank_lt_budgetFor r n)
      have hn' : optimizeNode r o n = .ok n' := hn'
      cases ns with
      | nil =>
          refine ⟨[n'], ?_⟩
          rw [optimize, hn']
          rfl
      | cons m ns =>
          obtain ⟨p', hp'⟩ := optimize_complete hr (m :: ns) hns hs₁ hv
          refine ⟨if o.dropUnused && isDroppable r n' then p' else n' :: p', ?_⟩
          rw [optimize, hn', hp']
          · rfl
          · exact List.cons_ne_nil _ _

end CallScript.Optimizer
