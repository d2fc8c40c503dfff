import CallScript.Optimizer
import CallScript.Proofs.Node.Levels

/-!
# What the optimizer makes of an expression

The optimizer as a relation between an expression and the one that comes out (`Optimizer.Becomes`): a
literal stays, a call stays with its arguments optimized, or it is replaced and the replacement is
optimized in turn. There is no budget in it, so properties of the output are proved by induction on
how it came about.

* `optimizeCall_cases`: a call with optimized arguments is refused, or it stays, or it is replaced, and
  only in the last case it matters what is done with replacements;
* `becomes_optimizeAt` and `becomesProgram_optimizeBy`: what the optimizer gives is in the relation, with
  any budgets (`optimizeBy`);
* `Becomes.within`: it fits below the limit.
-/

namespace CallScript.Optimizer

open Node (Within EveryIn)

variable {r : Registry} {o : Options}

/-! ## 1. Expressions -/

mutual

/-- At the level, the first expression is optimized to the second. -/
inductive Becomes (r : Registry) (o : Options) : Nat → Node → Node → Prop
  | literal {d : Nat} (v : Literal) (p : Place) (hd : d ≤ o.maxDepth) :
      Becomes r o d (.literal v p) (.literal v p)
  /-- The call stays, and it may get a memo key. -/
  | call {d : Nat} {args args' : List Node} {f : Function} (name : String) (p : Place)
      (memo : Option MemoKey) (hd : d ≤ o.maxDepth) (hargs : BecomeAll r o (d + 1) args args')
      (hf : r.get? name = some f) (ha : f.arity.accepts args'.length = true) :
      Becomes r o d (.call name p args memo)
        (.call name p args' (memoFor o f name (Node.literals? args') memo))
  /-- The call is replaced, and so may be its replacement. -/
  | replaced {d : Nat} {args args' : List Node} {f : Function} {m n : Node} (name : String)
      (p : Place) (memo : Option MemoKey) (hd : d ≤ o.maxDepth)
      (hargs : BecomeAll r o (d + 1) args args') (hf : r.get? name = some f)
      (ha : f.arity.accepts args'.length = true) (hw : f.allows .rewritten = true)
      (hm : f.rewrite args' p = .ok (some m)) (h : Becomes r o d m n) :
      Becomes r o d (.call name p args memo) n

/-- At the level, the first expressions are optimized to the second ones. -/
inductive BecomeAll (r : Registry) (o : Options) : Nat → List Node → List Node → Prop
  | nil (d : Nat) : BecomeAll r o d [] []
  | cons {d : Nat} {n n' : Node} {ns ns' : List Node} (h : Becomes r o d n n')
      (hs : BecomeAll r o d ns ns') : BecomeAll r o d (n :: ns) (n' :: ns')

end

theorem raised_eq_ok {α : Type} {x : Except Exception α} {a : α} (h : raised x = .ok a) :
    x = .ok a := by
  cases x with
  | ok b =>
      cases h
      rfl
  | error e => cases h

/-- A new memo key is the key of the call, of a function that allows it. -/
theorem memoFor_none_eq_some {f : Function} {name : String} {ls? : Option (List Literal)}
    {key : MemoKey} (h : memoFor o f name ls? none = some key) :
    f.allows .kept = true ∧ ∃ ls, ls? = some ls ∧ key = ⟨name, ls⟩ := by
  simp only [memoFor] at h
  split at h
  · next hkeep =>
    rw [Bool.and_eq_true] at hkeep
    obtain ⟨ls, hls, rfl⟩ := Option.map_eq_some_iff.1 h
    exact ⟨hkeep.2, ls, hls, rfl⟩
  · cases h

theorem replacement?_eq_some {f : Function} {p : Place} {args : List Node} {m : Node}
    (h : replacement? f p args = .ok (some m)) :
    f.allows .rewritten = true ∧ f.rewrite args p = .ok (some m) := by
  unfold replacement? at h
  split at h
  · next hallow => exact ⟨hallow, raised_eq_ok h⟩
  · cases h

/-- The call itself is refused: for its name, for its number of arguments, or for what is raised. -/
def OfCall : CompileError → Prop
  | .nestingTooDeep _ _ => False
  | .unsettled _ => False
  | _ => True

theorem ofCall_of_raised {α : Type} {x : Except Exception α} {e : CompileError}
    (h : raised x = .error e) : OfCall e := by
  cases x with
  | ok a => cases h
  | error e' =>
      cases h
      trivial

theorem ofCall_of_validate {f : Function} {p : Place} {ls? : Option (List Literal)}
    {e : CompileError} (h : validate f p ls? = .error e) : OfCall e := by
  unfold validate at h
  split at h
  · split at h
    · exact ofCall_of_raised h
    · cases h
  · cases h

theorem ofCall_of_replacement? {f : Function} {p : Place} {args : List Node} {e : CompileError}
    (h : replacement? f p args = .error e) : OfCall e := by
  unfold replacement? at h
  split at h
  · exact ofCall_of_raised h
  · cases h

/-- Where the name and the number of arguments are in order, what is raised is raised by validation or by
    the replacement. -/
theorem optimizeCall_of_accepts {f : Function} {name : String} {args : List Node}
    (hf : r.get? name = some f) (ha : f.arity.accepts args.length = true)
    (again : Node → Except CompileError Node) (p : Place) (memo : Option MemoKey) :
    optimizeCall r o again name p args memo =
      ((validate f p (Node.literals? args)).bind fun _ => (replacement? f p args).bind fun m? =>
        m?.elim (.ok (.call name p args (memoFor o f name (Node.literals? args) memo))) again) := by
  unfold optimizeCall
  rw [hf]
  simp only [ha, bind, Except.bind]
  cases validate f p (Node.literals? args) with
  | error e => rfl
  | ok u =>
      cases replacement? f p args with
      | error e => rfl
      | ok m? =>
          cases m? with
          | none => rfl
          | some m => rfl

/-- What is done about a call with optimized arguments, whatever is done about replacements. -/
inductive CallCase (r : Registry) (o : Options) (name : String) (p : Place) (args : List Node)
    (memo : Option MemoKey) : Prop
  | refused {e : CompileError} (he : OfCall e)
      (h : ∀ again, optimizeCall r o again name p args memo = .error e)
  | kept {f : Function} (hf : r.get? name = some f) (ha : f.arity.accepts args.length = true)
      (hv : validate f p (Node.literals? args) = .ok ()) (hm : replacement? f p args = .ok none)
      (h : ∀ again, optimizeCall r o again name p args memo =
        .ok (.call name p args (memoFor o f name (Node.literals? args) memo)))
  | replaced {f : Function} {m : Node} (hf : r.get? name = some f)
      (ha : f.arity.accepts args.length = true) (hw : f.allows .rewritten = true)
      (hm : f.rewrite args p = .ok (some m))
      (h : ∀ again, optimizeCall r o again name p args memo = again m)

/-- **A call with optimized arguments is refused, or it stays, or it is replaced.** -/
theorem optimizeCall_cases (r : Registry) (o : Options) (name : String) (p : Place)
    (args : List Node) (memo : Option MemoKey) : CallCase r o name p args memo := by
  cases hf : r.get? name with
  | none =>
      refine .refused (e := .notDefined p name) trivial fun again => ?_
      unfold optimizeCall
      rw [hf]
  | some f =>
      by_cases ha : f.arity.accepts args.length = true
      · have hcall := fun again => optimizeCall_of_accepts (o := o) hf ha again p memo
        cases hv : validate f p (Node.literals? args) with
        | error e =>
            rw [hv] at hcall
            exact .refused (ofCall_of_validate hv) hcall
        | ok u =>
            rw [hv] at hcall
            cases hm : replacement? f p args with
            | error e =>
                rw [hm] at hcall
                exact .refused (ofCall_of_replacement? hm) hcall
            | ok m? =>
                rw [hm] at hcall
                cases m? with
                | none => exact .kept hf ha hv hm hcall
                | some m =>
                    obtain ⟨hw, hrewrite⟩ := replacement?_eq_some hm
                    exact .replaced hf ha hw hrewrite hcall
      · refine .refused (e := .wrongArgumentCount p name f.arity args.length) trivial fun again => ?_
        unfold optimizeCall
        rw [hf]
        exact if_pos (by simpa using ha)

/-- A call with optimized arguments becomes what the optimizer gives for it. -/
theorem becomes_optimizeCall {d : Nat} {again : Node → Except CompileError Node}
    (hagain : ∀ m n, again m = .ok n → Becomes r o d m n) (hd : d ≤ o.maxDepth) {name : String}
    {p : Place} {args args' : List Node} (hargs : BecomeAll r o (d + 1) args args')
    {memo : Option MemoKey} {n : Node}
    (h : optimizeCall r o again name p args' memo = .ok n) :
    Becomes r o d (.call name p args memo) n := by
  cases optimizeCall_cases r o name p args' memo with
  | refused _ hcall =>
      rw [hcall] at h
      cases h
  | kept hf ha _ _ hcall =>
      rw [hcall] at h
      cases h
      exact .call name p memo hd hargs hf ha
  | replaced hf ha hw hm hcall =>
      rw [hcall] at h
      exact .replaced name p memo hd hargs hf ha hw hm (hagain _ n h)

mutual

theorem becomes_optimizeWith {again : Nat → Node → Except CompileError Node}
    (hagain : ∀ d m n, again d m = .ok n → Becomes r o d m n) :
    ∀ (n : Node) {d : Nat} {n' : Node}, optimizeWith r o again d n = .ok n' → Becomes r o d n n'
  | .literal v p, d, n', h => by
      rw [optimizeWith] at h
      split at h
      · cases h
      · next hd =>
        cases h
        exact .literal v p (Nat.not_lt.1 hd)
  | .call name p args memo, d, n', h => by
      rw [optimizeWith] at h
      split at h
      · cases h
      · next hd =>
        cases hargs : optimizeAllWith r o again (d + 1) args with
        | error e => simp [hargs, bind, Except.bind] at h
        | ok args' =>
            simp only [hargs, bind, Except.bind] at h
            exact becomes_optimizeCall (hagain d) (Nat.not_lt.1 hd)
              (becomes_optimizeAllWith hagain args hargs) h

theorem becomes_optimizeAllWith {again : Nat → Node → Except CompileError Node}
    (hagain : ∀ d m n, again d m = .ok n → Becomes r o d m n) :
    ∀ (ns : List Node) {d : Nat} {ns' : List Node},
      optimizeAllWith r o again d ns = .ok ns' → BecomeAll r o d ns ns'
  | [], d, _, h => by
      cases h
      exact .nil d
  | n :: ns, d, ns', h => by
      rw [optimizeAllWith] at h
      cases hn : optimizeWith r o again d n with
      | error e => simp [hn, bind, Except.bind] at h
      | ok n' =>
          cases hns : optimizeAllWith r o again d ns with
          | error e => simp [hn, hns, bind, Except.bind] at h
          | ok rest =>
              simp only [hn, hns, bind, Except.bind] at h
              cases h
              exact .cons (becomes_optimizeWith hagain n hn) (becomes_optimizeAllWith hagain ns hns)

end

/-- **An expression becomes what the optimizer gives for it**, with any budget. -/
theorem becomes_optimizeAt (budget : Nat) : ∀ (d : Nat) (n n' : Node),
    optimizeAt r o budget d n = .ok n' → Becomes r o d n n' := by
  induction budget with
  | zero => exact fun _ _ _ h => nomatch h
  | succ budget ih => exact fun d n n' h => becomes_optimizeWith ih n h

/-- There is a budget for at least one replacement. -/
theorem budgetFor_eq_succ (r : Registry) (n : Node) : ∃ budget, budgetFor r n = budget + 1 := by
  have hpos : 0 < budgetFor r n := Nat.mul_pos (Nat.succ_pos _) (Nat.succ_pos _)
  exact Nat.exists_eq_succ_of_ne_zero (Nat.ne_of_gt hpos)

/-! ## 2. Levels and numbers of arguments -/

theorem BecomeAll.length_eq : ∀ {ns ns' : List Node} {d : Nat}, BecomeAll r o d ns ns' →
    ns'.length = ns.length
  | _, _, _, .nil _ => rfl
  | _, _, _, .cons _ hs => congrArg (· + 1) hs.length_eq

mutual

/-- **What comes out of the optimizer fits below its limit.** -/
theorem Becomes.within : ∀ {n n' : Node} {d : Nat}, Becomes r o d n n' →
    n'.Every (Within o.maxDepth) d
  | _, _, _, .literal _ _ hd => hd
  | _, _, _, .call _ _ _ hd hargs _ _ => ⟨hd, hargs.within⟩
  | _, _, _, .replaced _ _ _ _ _ _ _ _ _ h => h.within

theorem BecomeAll.within : ∀ {ns ns' : List Node} {d : Nat}, BecomeAll r o d ns ns' →
    EveryIn (Within o.maxDepth) d ns'
  | _, _, _, .nil _ => trivial
  | _, _, _, .cons h hs => ⟨h.within, hs.within⟩

end

/-- Literals stay as they are. -/
theorem BecomeAll.eq_of_literals : ∀ {ns ns' : List Node} {d : Nat}, BecomeAll r o d ns ns' →
    ∀ {ls : List Literal}, Node.literals? ns = some ls → ns' = ns
  | _, _, _, .nil _, _, _ => rfl
  | _, _, _, .cons (n := .literal _ _) (.literal v p _) hs, ls, h => by
      have h : (Node.literals? _).map (v :: ·) = some ls := h
      obtain ⟨ls', hls', -⟩ := Option.map_eq_some_iff.1 h
      rw [hs.eq_of_literals hls']
  | _, _, _, .cons (n := .call _ _ _ _) _ _, _, h => nomatch h

/-- Literals stay where they are. -/
theorem BecomeAll.getElem?_literal {ns ns' : List Node} {d i : Nat} {v : Literal} {p : Place}
    (h : BecomeAll r o d ns ns') (hi : ns[i]? = some (.literal v p)) :
    ns'[i]? = some (.literal v p) := by
  induction ns generalizing ns' i with
  | nil => cases hi
  | cons n ns ih =>
      cases h with
      | cons hn hs =>
          cases i with
          | zero =>
              obtain rfl : n = .literal v p := Option.some.inj hi
              cases hn
              rfl
          | succ i => exact List.getElem?_cons_succ.trans (ih hs hi)

/-! ## 3. Programs -/

/-- The first program is optimized to the second: statement by statement, and of those that are not the
    last one some may be left out. -/
inductive BecomesProgram (r : Registry) (o : Options) : Program → Program → Prop
  | nil : BecomesProgram r o [] []
  | last {n n' : Node} (h : Becomes r o 1 n n') : BecomesProgram r o [n] [n']
  | keep {n n' m : Node} {p p' : Program} (h : Becomes r o 1 n n')
      (hs : BecomesProgram r o (m :: p) p') : BecomesProgram r o (n :: m :: p) (n' :: p')
  | drop {n n' m : Node} {p p' : Program} (h : Becomes r o 1 n n') (ho : o.dropUnused = true)
      (hn : isDroppable r n' = true) (hs : BecomesProgram r o (m :: p) p') :
      BecomesProgram r o (n :: m :: p) p'

/-- Two statements or more: the first one is optimized before the others, and may be left out. -/
theorem optimize_cons_cons (r : Registry) (o : Options) (n m : Node) (p : Program) :
    optimize r o (n :: m :: p) = (do
      let n ← optimizeNode r o n
      let ns ← optimize r o (m :: p)
      pure (if o.dropUnused && isDroppable r n then ns else n :: ns)) := rfl

/-- Optimizes the statements of a program, each with a budget of its own. -/
def optimizeBy (r : Registry) (o : Options) (budget : Node → Nat) :
    Program → Except CompileError Program
  | [] => .ok []
  | [n] => do
    let n ← optimizeAt r o (budget n) 1 n
    pure [n]
  | n :: ns => do
    let n ← optimizeAt r o (budget n) 1 n
    let ns ← optimizeBy r o budget ns
    pure (if o.dropUnused && isDroppable r n then ns else n :: ns)

theorem optimizeBy_cons_cons (r : Registry) (o : Options) (budget : Node → Nat) (n m : Node)
    (p : Program) :
    optimizeBy r o budget (n :: m :: p) = (do
      let n ← optimizeAt r o (budget n) 1 n
      let ns ← optimizeBy r o budget (m :: p)
      pure (if o.dropUnused && isDroppable r n then ns else n :: ns)) := rfl

/-- Programs are optimized with the budgets of their statements. -/
theorem optimizeBy_budgetFor (r : Registry) (o : Options) :
    ∀ p : Program, optimizeBy r o (budgetFor r) p = optimize r o p
  | [] => rfl
  | [n] => rfl
  | n :: m :: p => by
      rw [optimizeBy_cons_cons, optimize_cons_cons, optimizeBy_budgetFor r o (m :: p)]
      rfl

/-- **A program becomes what the optimizer gives for it**, with any budgets. -/
theorem becomesProgram_optimizeBy {budget : Node → Nat} : ∀ {p p' : Program},
    optimizeBy r o budget p = .ok p' → BecomesProgram r o p p'
  | [], _, h => by
      cases h
      exact .nil
  | [n], p', h => by
      rw [optimizeBy] at h
      cases hn : optimizeAt r o (budget n) 1 n with
      | error e => simp [hn, bind, Except.bind] at h
      | ok n' =>
          simp only [hn, bind, Except.bind] at h
          cases h
          exact .last (becomes_optimizeAt _ 1 n n' hn)
  | n :: m :: p, p', h => by
      rw [optimizeBy_cons_cons] at h
      cases hn : optimizeAt r o (budget n) 1 n with
      | error e => simp [hn, bind, Except.bind] at h
      | ok n' =>
          cases hp : optimizeBy r o budget (m :: p) with
          | error e => simp [hn, hp, bind, Except.bind] at h
          | ok rest =>
              simp only [hn, hp, bind, Except.bind] at h
              have hbecomes := becomes_optimizeAt _ 1 n n' hn
              have hrest := becomesProgram_optimizeBy hp
              have h : ite _ _ _ = p' := Except.ok.inj h
              split at h
              · next hdrop =>
                rw [Bool.and_eq_true] at hdrop
                subst h
                exact .drop hbecomes hdrop.1 hdrop.2 hrest
              · subst h
                exact .keep hbecomes hrest

/-- A program becomes what the optimizer gives for it. -/
theorem becomesProgram_optimize {p p' : Program} (h : optimize r o p = .ok p') :
    BecomesProgram r o p p' := by
  rw [← optimizeBy_budgetFor] at h
  exact becomesProgram_optimizeBy h

/-- The last statement is never left out. -/
theorem BecomesProgram.ne_nil : ∀ {p p' : Program}, BecomesProgram r o p p' → p ≠ [] → p' ≠ []
  | _, _, .nil, h => h
  | _, _, .last _, _ => List.cons_ne_nil _ _
  | _, _, .keep _ _, _ => List.cons_ne_nil _ _
  | _, _, .drop _ _ _ hs, _ => hs.ne_nil (List.cons_ne_nil _ _)

end CallScript.Optimizer
