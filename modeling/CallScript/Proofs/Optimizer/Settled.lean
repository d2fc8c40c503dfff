import CallScript.Proofs.Optimizer.Derivation

/-!
# Expressions that the optimizer leaves as they are

An expression is settled (`Optimizer.Settled`) if there is nothing left to do at any of its nodes:
the names, the numbers of arguments and the levels are in order, validation accepts the literals, no
call is replaced, and every call has the memo key that it would get.

* `settled_optimizeAt`: what comes out of the optimizer is settled, whatever replacements it went
  through;
* `optimizeWith_of_settled`: a settled expression is its own result;
* `optimize_of_optimizeBy`: so a program that was optimized once is not changed by a second time.

Functions from outside may be replaced any number of times, one after the other. Therefore the
budgets are free here (`optimizeBy`): whichever lets a program through, the result is the same kind
of program. `optimize` is the case of its own budgets (`optimizeBy_budgetFor`).
-/

namespace CallScript.Optimizer

open Node (Every EveryIn literals?)

variable {r : Registry} {o : Options}

/-! ## 1. Settled expressions -/

/-- There is nothing left to do at the node, at its level. -/
def Stable (r : Registry) (o : Options) (d : Nat) (n : Node) : Prop :=
  d ≤ o.maxDepth ∧
    match n with
    | .literal _ _ => True
    | .call name p args memo =>
      ∃ f, r.get? name = some f ∧ f.arity.accepts args.length = true ∧
        validate f p (literals? args) = .ok () ∧ replacement? f p args = .ok none ∧
        memoFor o f name (literals? args) memo = memo

/-- There is nothing left to do in the expression, whose root is at the level. -/
def Settled (r : Registry) (o : Options) (d : Nat) (n : Node) : Prop := n.Every (Stable r o) d

/-- There is nothing left to do in any of the expressions. -/
def AllSettled (r : Registry) (o : Options) (d : Nat) (ns : List Node) : Prop :=
  EveryIn (Stable r o) d ns

theorem Settled.within {d : Nat} {n : Node} (h : Settled r o d n) :
    n.Every (Node.Within o.maxDepth) d :=
  h.imp fun _ _ hn => hn.1

/-- A memo key that was given is given again. -/
theorem memoFor_memoFor (o : Options) (f : Function) (name : String)
    (ls : Option (List Literal)) (memo : Option MemoKey) :
    memoFor o f name ls (memoFor o f name ls memo) = memoFor o f name ls memo := by
  cases memo with
  | some key => rfl
  | none =>
      cases hkey : memoFor o f name ls none with
      | some key => rfl
      | none => exact hkey

/-! ## 2. What comes out is settled -/

/-- What the optimizer makes of a call with settled arguments is settled, if what it makes of
    replacements is. -/
theorem settled_optimizeCall {d : Nat} {again : Node → Except CompileError Node}
    (hagain : ∀ m n, again m = .ok n → Settled r o d n) (hd : d ≤ o.maxDepth) {name : String}
    {p : Place} {args : List Node} (hargs : AllSettled r o (d + 1) args) {memo : Option MemoKey}
    {n : Node} (h : optimizeCall r o again name p args memo = .ok n) : Settled r o d n := by
  cases optimizeCall_cases r o name p args memo with
  | refused _ hcall =>
      rw [hcall] at h
      cases h
  | @kept f hf ha hv hm hcall =>
      rw [hcall] at h
      cases h
      exact ⟨⟨hd, f, hf, ha, hv, hm, memoFor_memoFor o f name _ memo⟩, hargs⟩
  | replaced _ _ _ _ hcall =>
      rw [hcall] at h
      exact hagain _ n h

mutual

theorem settled_optimizeWith {again : Nat → Node → Except CompileError Node}
    (hagain : ∀ d m n, again d m = .ok n → Settled r o d n) :
    ∀ (n : Node) {d : Nat} {n' : Node}, optimizeWith r o again d n = .ok n' → Settled r o d n'
  | .literal v p, d, n', h => by
      rw [optimizeWith] at h
      split at h
      · cases h
      · next hd =>
        cases h
        exact ⟨Nat.not_lt.1 hd, trivial⟩
  | .call name p args memo, d, n', h => by
      rw [optimizeWith] at h
      split at h
      · cases h
      · next hd =>
        cases hargs : optimizeAllWith r o again (d + 1) args with
        | error e => simp [hargs, bind, Except.bind] at h
        | ok args' =>
            simp only [hargs, bind, Except.bind] at h
            have hsettled := settled_optimizeAllWith hagain args hargs
            exact settled_optimizeCall (hagain d) (Nat.not_lt.1 hd) hsettled h

theorem settled_optimizeAllWith {again : Nat → Node → Except CompileError Node}
    (hagain : ∀ d m n, again d m = .ok n → Settled r o d n) :
    ∀ (ns : List Node) {d : Nat} {ns' : List Node},
      optimizeAllWith r o again d ns = .ok ns' → AllSettled r o d ns'
  | [], d, _, h => by
      cases h
      trivial
  | n :: ns, d, ns', h => by
      rw [optimizeAllWith] at h
      cases hn : optimizeWith r o again d n with
      | error e => simp [hn, bind, Except.bind] at h
      | ok n' =>
          cases hns : optimizeAllWith r o again d ns with
          | error e => simp [hn, hns, bind, Except.bind] at h
          | ok rest =>
              simp only [hn, hns, bind, Except.bind] at h
              cases h
              exact ⟨settled_optimizeWith hagain n hn, settled_optimizeAllWith hagain ns hns⟩

end

/-- **What comes out of the optimizer is settled**, with any budget. The induction is on the budget:
    a replacement has the smaller one. -/
theorem settled_optimizeAt (budget : Nat) : ∀ (d : Nat) (n n' : Node),
    optimizeAt r o budget d n = .ok n' → Settled r o d n' := by
  induction budget with
  | zero => exact fun _ _ _ h => nomatch h
  | succ budget ih => exact fun d n n' h => settled_optimizeWith ih n h

/-! ## 3. What is settled stays -/

mutual

/-- **A settled expression is its own result**, wherever replacements would go. -/
theorem optimizeWith_of_settled {again : Nat → Node → Except CompileError Node} :
    ∀ (n : Node) {d : Nat}, Settled r o d n → optimizeWith r o again d n = .ok n
  | .literal v p, d, h => by
      rw [optimizeWith, if_neg (Nat.not_lt.2 h.1)]
  | .call name p args memo, d, ⟨⟨hd, f, hf, ha, hv, hm, hmemo⟩, hargs⟩ => by
      rw [optimizeWith, if_neg (Nat.not_lt.2 hd), optimizeAllWith_of_settled args hargs]
      show optimizeCall r o (again d) name p args memo = _
      rw [optimizeCall_of_accepts hf ha, hv, hm, hmemo]
      rfl

theorem optimizeAllWith_of_settled {again : Nat → Node → Except CompileError Node} :
    ∀ (ns : List Node) {d : Nat}, AllSettled r o d ns → optimizeAllWith r o again d ns = .ok ns
  | [], _, _ => rfl
  | n :: ns, _, h => by
      rw [optimizeAllWith, optimizeWith_of_settled n h.1, optimizeAllWith_of_settled ns h.2]
      rfl

end

/-- A settled expression needs no more than a budget of one. -/
theorem optimizeNode_of_settled {n : Node} (h : Settled r o 1 n) : optimizeNode r o n = .ok n := by
  obtain ⟨budget, hbudget⟩ := budgetFor_eq_succ r n
  unfold optimizeNode
  rw [hbudget]
  exact optimizeWith_of_settled n h

/-! ## 4. Programs -/

/-- The statements are settled, and none but the last one can be left out. -/
inductive SettledProgram (r : Registry) (o : Options) : Program → Prop
  | nil : SettledProgram r o []
  | last {n : Node} (h : Settled r o 1 n) : SettledProgram r o [n]
  | keep {n m : Node} {p : Program} (h : Settled r o 1 n)
      (hkeep : (o.dropUnused && isDroppable r n) = false) (hp : SettledProgram r o (m :: p)) :
      SettledProgram r o (n :: m :: p)

theorem SettledProgram.settled : ∀ {p : Program}, SettledProgram r o p →
    ∀ n ∈ p, Settled r o 1 n
  | _, .nil => fun _ hn => (List.not_mem_nil hn).elim
  | _, .last h => List.forall_mem_singleton.2 h
  | _, .keep h _ hp => List.forall_mem_cons.2 ⟨h, hp.settled⟩

/-- A statement in front of settled ones leaves them settled, kept or left out. -/
theorem SettledProgram.cons {n : Node} {p : Program} (h : Settled r o 1 n)
    (hp : SettledProgram r o p) (hne : p ≠ []) :
    SettledProgram r o (if o.dropUnused && isDroppable r n then p else n :: p) := by
  split
  · exact hp
  · next hkeep =>
    cases p with
    | nil => exact absurd rfl hne
    | cons m p => exact .keep h (Bool.not_eq_true _ ▸ hkeep) hp

/-- **What comes out for a program is settled**, and the last statement is never left out. -/
theorem settledProgram_optimizeBy {budget : Node → Nat} : ∀ {p q : Program},
    optimizeBy r o budget p = .ok q → SettledProgram r o q ∧ (p ≠ [] → q ≠ [])
  | [], _, h => by
      cases h
      exact ⟨.nil, id⟩
  | [n], q, h => by
      rw [optimizeBy] at h
      cases hn : optimizeAt r o (budget n) 1 n with
      | error e => simp [hn, bind, Except.bind] at h
      | ok n' =>
          simp only [hn, bind, Except.bind] at h
          cases h
          exact ⟨.last (settled_optimizeAt _ 1 n n' hn), fun _ => List.cons_ne_nil _ _⟩
  | n :: m :: p, q, h => by
      rw [optimizeBy_cons_cons] at h
      cases hn : optimizeAt r o (budget n) 1 n with
      | error e => simp [hn, bind, Except.bind] at h
      | ok n' =>
          cases hp : optimizeBy r o budget (m :: p) with
          | error e => simp [hn, hp, bind, Except.bind] at h
          | ok rest =>
              simp only [hn, hp, bind, Except.bind] at h
              obtain ⟨hrest, hne⟩ := settledProgram_optimizeBy hp
              have hne := hne (List.cons_ne_nil _ _)
              have hsettled := hrest.cons (settled_optimizeAt _ 1 n n' hn) hne
              have h : ite _ _ _ = q := Except.ok.inj h
              rw [← h]
              refine ⟨hsettled, fun _ => ?_⟩
              split
              · exact hne
              · exact List.cons_ne_nil _ _

/-- A settled program is its own result. -/
theorem optimize_of_settledProgram {q : Program} (h : SettledProgram r o q) :
    optimize r o q = .ok q := by
  induction h with
  | nil => rfl
  | last hn =>
      rw [optimize, optimizeNode_of_settled hn]
      rfl
  | keep hn hkeep _ ih =>
      rw [optimize_cons_cons, optimizeNode_of_settled hn, ih]
      simp only [bind, Except.bind, hkeep]
      rfl

/-- **A program that was optimized is not changed by being optimized again**: it has the same nodes
    at the same places with the same memo keys, and the same statements are kept, whatever the
    functions of the registry are replaced by. -/
theorem optimize_of_optimizeBy {budget : Node → Nat} {p q : Program}
    (h : optimizeBy r o budget p = .ok q) : optimize r o q = .ok q :=
  optimize_of_settledProgram (settledProgram_optimizeBy h).1

/-- A function of one argument whose calls become those of another function. -/
def renamed (name target : String) : Function :=
  Function.ofPure
    { name := name
      arity := .fixed 1
      params := []
      docs := ""
      examples := []
      thrown := []
      treatments := [.rewritten] }
    (fun args => .ok (Function.arg args 0)) Function.noCheck
    (fun args place => .ok (some (.call target place args none)))

/-- Two functions of the language, and one whose calls become those of another name. -/
def quoting : Registry :=
  Registry.empty.extend [renamed "quote" "reg_escape", .arrayGet, .regEscape]

/-- A call that is replaced under another name and gets a memo key there. -/
theorem optimize_of_optimizeBy_renamed :
    optimize quoting {} [.call "reg_escape" default [.literal (.string ".") default]
        (some ⟨"reg_escape", [.string "."]⟩)] =
      .ok [.call "reg_escape" default [.literal (.string ".") default]
        (some ⟨"reg_escape", [.string "."]⟩)] := by
  have h : optimizeBy quoting {} (fun _ => 2)
      [.call "quote" default [.literal (.string ".") default] none] =
        .ok [.call "reg_escape" default [.literal (.string ".") default]
          (some ⟨"reg_escape", [.string "."]⟩)] := by
    cbv
  exact optimize_of_optimizeBy h

end CallScript.Optimizer
