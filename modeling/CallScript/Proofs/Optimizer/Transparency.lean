import CallScript.Proofs.Optimizer.Completeness

/-!
# Nobody can tell that a program was optimized

The two promises of the optimizer for programs of the standard registry, on evaluators in which nothing
has happened:

* `optimize_of_success`: a program that runs is accepted, and the optimized program has the same
  value and writes the same lines, whatever the options are;
* `optimize_transparent`: as long as statements are not left out, an accepted program and the
  optimized one have the same outcome, failures included, and write the same lines before it.

A statement that is left out writes nothing (`silent_evalAt`), so that a program that succeeds with it
succeeds without it, and writes the same.
-/

namespace CallScript

/-! ## 1. Runs that write nothing -/

/-- The run writes no line, whatever comes of it. -/
def Run.Silent {α : Type} (m : Run α) : Prop :=
  ∀ s, (m.result s).2.world.lines = s.world.lines

namespace Run.Silent

variable {α β : Type}

theorem pure (a : α) : Silent (Pure.pure a : Run α) := fun _ => rfl

theorem throw (e : RuntimeError) : Silent (throw e : Run α) := fun _ => rfl

theorem bind {m : Run α} {f : α → Run β} (hm : Silent m) (hf : ∀ a, Silent (f a)) :
    Silent (m >>= f) := by
  intro s
  have hs := hm s
  rw [result_bind]
  rcases hms : result m s with ⟨e | a, t⟩
  · rw [hms] at hs
    exact hs
  · rw [hms] at hs
    exact (hf a t).trans hs

/-- Looking up a result does nothing that computing it would not do. -/
theorem remember {m : Run Value} (h : Silent m) (key : MemoKey) :
    Silent (Evaluator.remember key m) := by
  intro s
  rw [Evaluator.result_remember]
  cases s.memo[key]? with
  | some v => rfl
  | none =>
      have hs := h { s with memo := Evaluator.makeRoom s.memo }
      dsimp only
      rcases hm : result m { s with memo := Evaluator.makeRoom s.memo } with ⟨e | v, t⟩
      · rw [hm] at hs
        exact hs
      · rw [hm] at hs
        exact hs

/-- A call that computes with its arguments does nothing. -/
theorem execute {f : Function} (hf : f.Pure) (name : String) (args : List Value) (p : Place) :
    Silent (Evaluator.execute f name args p) := by
  obtain ⟨compute, hcompute⟩ := hf
  intro s
  rw [Evaluator.result_execute, hcompute]
  rfl

end Run.Silent

namespace Optimizer

open Run Evaluator Node

variable {r : Registry} {o : Options}

/-! ## 2. Statements that are left out -/

mutual

/-- **An expression that may be left out writes no line.** -/
theorem silent_evalAt (hr : r.AllLawful) {limit : Nat} : ∀ (n : Node) (d : Nat),
    isDroppable r n = true → Silent (evalAt r limit d n)
  | .literal v p, d, _ => by
      by_cases hd : limit < d
      · rw [evalAt_of_lt hd]
        exact .throw _
      · rw [evalAt_literal (Nat.not_lt.1 hd)]
        exact .pure _
  | .call name p args memo, d, h => by
      by_cases hd : limit < d
      · rw [evalAt_of_lt hd]
        exact .throw _
      · have hd := Nat.not_lt.1 hd
        rw [isDroppable, Bool.and_eq_true] at h
        have hcall : Silent (evalCall r limit d name p args) := by
          rcases callee_cases r p name args.length with ⟨f, hf, -, hc⟩ | ⟨e, hc⟩
          · have hpure : f.Pure := by
              rw [hf] at h
              exact (hr name f hf).droppable h.1
            rw [evalCall_of_callee hc]
            exact (silent_evalAllAt hr args (d + 1) h.2).bind fun vs =>
              .execute hpure name vs p
          · rw [evalCall_of_refused hc]
            exact .throw e
        cases memo with
        | none =>
            rw [evalAt_call_none hd]
            exact hcall
        | some key =>
            rw [evalAt_call_some hd]
            exact hcall.remember key

theorem silent_evalAllAt (hr : r.AllLawful) {limit : Nat} : ∀ (ns : List Node) (d : Nat),
    areDroppable r ns = true → Silent (evalAllAt r limit d ns)
  | [], _, _ => .pure _
  | n :: ns, d, h => by
      rw [areDroppable, Bool.and_eq_true] at h
      exact (silent_evalAt hr n d h.1).bind fun _ =>
        (silent_evalAllAt hr ns d h.2).bind fun _ => .pure _

end

/-- The value before a statement is of no account. -/
theorem evalFrom_of_ne_nil {limit : Nat} {p : Program} (hp : p ≠ []) (last last' : Value) :
    evalFrom r limit last p = evalFrom r limit last' p := by
  cases p with
  | nil => exact absurd rfl hp
  | cons n ns => rfl

/-! ## 3. Programs that succeed -/

/-- **What a program gives, the optimized program gives**, from sessions that are alike; they are alike
    again behind it. The induction is on how the program came about: where a statement is left
    out, the session stands still on the one side and sees no more than silence on the other. -/
theorem BecomesProgram.result_ok (hr : r.Lawful) : ∀ {p p' : Program}, BecomesProgram r o p p' →
    (∀ n ∈ p, n.Every (WellKeyed r o.maxDepth) 1) →
    ∀ {v₀ : Value} {sv : Services} {a b : List String} {s t s' : Session} {v : Value},
      Session.Alike r sv a b s t →
      (evalFrom r o.maxDepth v₀ p).result s = (.ok v, s') →
      ∃ t', (evalFrom r o.maxDepth v₀ p').result t = (.ok v, t') ∧
        Session.Alike r sv a b s' t'
  | _, _, .nil, _, v₀, sv, a, b, s, t, s', v, hst, hv => by
      cases hv
      exact ⟨t, rfl, hst⟩
  | _, _, .last h, hkey, v₀, sv, a, b, s, t, s', v, hst, hv => by
      obtain ⟨v₁, s₁, hv₁, hv⟩ := result_bind_eq_ok hv
      cases hv
      obtain ⟨t', ht', hst'⟩ :=
        (h.agrees hr (hkey _ List.mem_cons_self)).2.result_ok_of_alike hst hv₁
      exact ⟨t', result_bind_of_ok ht', hst'⟩
  | _, _, .keep h hs, hkey, v₀, sv, a, b, s, t, s', v, hst, hv => by
      obtain ⟨hn, hns⟩ := List.forall_mem_cons.1 hkey
      obtain ⟨v₁, s₁, hv₁, hv⟩ := result_bind_eq_ok hv
      obtain ⟨t₁, ht₁, hst₁⟩ := (h.agrees hr hn).2.result_ok_of_alike hst hv₁
      obtain ⟨t', ht', hst'⟩ := hs.result_ok hr hns hst₁ hv
      exact ⟨t', (result_bind_of_ok ht₁).trans ht', hst'⟩
  | _, _, .drop h _ hdrop hs, hkey, v₀, sv, a, b, s, t, s', v, hst, hv => by
      obtain ⟨hn, hns⟩ := List.forall_mem_cons.1 hkey
      obtain ⟨v₁, s₁, hv₁, hv⟩ := result_bind_eq_ok hv
      obtain ⟨t₁, ht₁, hst₁⟩ := (h.agrees hr hn).2.result_ok_of_alike hst hv₁
      -- the statement that is left out would have kept the lines of the other session
      have hlines := @silent_evalAt r hr.functions o.maxDepth _ 1 hdrop t
      have ht₁ : (evalAt r o.maxDepth 1 _).result t = (.ok v₁, t₁) := ht₁
      rw [ht₁] at hlines
      have hstill : Session.Alike r sv a b s₁ t := by
        obtain ⟨new, hs₁, hnew⟩ := hst₁.world.lines
        exact ⟨⟨hst₁.world.left, hst.world.right, new, hs₁, hlines.symm.trans hnew⟩,
          hst₁.left, hst.right⟩
      obtain ⟨t', ht', hst'⟩ := hs.result_ok hr hns hstill hv
      rw [evalFrom_of_ne_nil (hs.ne_nil (List.cons_ne_nil _ _)) v₁ v₀] at ht'
      exact ⟨t', ht', hst'⟩

/-! ## 4. The standard registry -/

/-- **The optimizer never breaks a working program.** A program of the standard registry that runs is
    accepted, and the optimized program has the same value and writes the same lines, with any
    options.

    Only memo keys that the program has already have to be in order (`WellKeyed`): each is the key of its
    own call, the function allows that its results are kept, and the arguments of the call are within
    the limit. A program without memo keys always is so (`Unkeyed.wellKeyed`), and no program that was
    parsed has any (`unkeyed_of_parse`). -/
theorem optimize_of_success (services : Services) (o : Options) (p : Program)
    (hkey : ∀ n ∈ p, n.Every (WellKeyed .standard o.maxDepth) 1) (v : Value) (s : Session)
    (hv : (eval .standard o.maxDepth p).result (.fresh services) = (.ok v, s)) :
    ∃ p' t, optimize .standard o p = .ok p' ∧
      (eval .standard o.maxDepth p').result (.fresh services) = (.ok v, t) ∧
      t.world.output = s.world.output := by
  have hr := Registry.lawful_standard
  have hfresh := @Session.Alike.fresh .standard (.fresh services) (Memo.sound_empty _)
  obtain ⟨p', hp'⟩ := optimize_complete hr p hkey hfresh.left hv
  obtain ⟨t, ht, hst⟩ := (becomesProgram_optimize hp').result_ok hr hkey hfresh hv
  exact ⟨p', t, hp', ht, hst.output_eq.symm⟩

/-- A statement that is left out, a line that is written, and a value. -/
theorem optimize_of_success_with_line :
    ∃ p' t, optimize .standard {}
        [.call "array" default [] none,
          .call "console" default [.literal (.string "x") default] none,
          .literal (.integer 1) default] = .ok p' ∧
      (eval .standard 128 p').result (.fresh ⟨[⟨.console, ()⟩]⟩) = (.ok (.integer 1), t) ∧
      t.world.output = ["x"] := by
  have harray : Registry.standard.get? "array" = some .array :=
    Registry.get?_name .array (by simp [Registry.builtins])
  have hconsole : Registry.standard.get? "console" = some .console :=
    Registry.get?_name .console (by simp [Registry.builtins])
  refine optimize_of_success ⟨[⟨.console, ()⟩]⟩ {} _ ?_ (.integer 1)
    ⟨∅, ⟨⟨[⟨.console, ()⟩]⟩, ["x"], [⟨"console", [.string "x"]⟩, ⟨"array", []⟩]⟩⟩ ?_
  · simp [Every, EveryIn, WellKeyed, Node.memo?]
  · simp [eval, evalFrom, evalNode, evalAt, evalAllAt, callee, harray, hconsole, result_bind,
      result_execute, Function.array, Function.ofPure, Function.console, Function.raiseAt,
      Function.arg, Arity.accepts, Session.fresh, World.fresh, World.note, World.writeLine,
      World.hasConsole, mapError_ok, Literal.toValue, defaultMaxDepth]
    rfl

/-- **Without leaving statements out, the optimizer is transparent, failures included.** An accepted
    program of the standard registry and the optimized one have the same outcome, and they write the
    same lines before it.

    As in `optimize_of_success`, memo keys that the program has already are asked to be those of their
    calls, of functions that allow that their results are kept, with arguments within the limit
    (`WellKeyed`). A program without memo keys always meets this (`Unkeyed.wellKeyed`), so that every
    parsed one does (`unkeyed_of_parse`). -/
theorem optimize_transparent (services : Services) (o : Options) (ho : o.dropUnused = false)
    (p p' : Program) (hkey : ∀ n ∈ p, n.Every (WellKeyed .standard o.maxDepth) 1)
    (hp : optimize .standard o p = .ok p') :
    ((eval .standard o.maxDepth p').result (.fresh services)).1 =
        ((eval .standard o.maxDepth p).result (.fresh services)).1 ∧
      ((eval .standard o.maxDepth p').result (.fresh services)).2.world.output =
        ((eval .standard o.maxDepth p).result (.fresh services)).2.world.output := by
  have hagree := (becomesProgram_optimize hp).agrees Registry.lawful_standard ho hkey .null
  have hfresh := @Session.Alike.fresh .standard (.fresh services) (Memo.sound_empty _)
  obtain ⟨he, hs⟩ := hagree _ [] [] _ _ hfresh
  exact ⟨he.symm, hs.output_eq.symm⟩

/-- A result that is kept, and a failure behind it. -/
theorem optimize_transparent_before_failure :
    ((eval .standard 128
        [.call "reg_escape" default [.literal (.string ".") default]
            (some ⟨"reg_escape", [.string "."]⟩),
          .call "array_get" default [.literal (.integer 1) default, .literal .null default]
            none]).result (.fresh Environment.empty)).1 =
      ((eval .standard 128
        [.call "reg_escape" default [.literal (.string ".") default] none,
          .call "array_get" default [.literal (.integer 1) default, .literal .null default]
            none]).result (.fresh Environment.empty)).1 := by
  have hescape : Registry.standard.get? "reg_escape" = some .regEscape :=
    Registry.get?_name .regEscape (by simp [Registry.builtins])
  have hget : Registry.standard.get? "array_get" = some .arrayGet :=
    Registry.get?_name .arrayGet (by simp [Registry.builtins])
  refine (optimize_transparent Environment.empty { dropUnused := false } rfl _ _ ?_ ?_).1
  · simp [Every, EveryIn, WellKeyed, Node.memo?]
  · have hbudget : ∀ n, ∃ k, budgetFor .standard n = k + 1 := fun n =>
      Nat.exists_eq_succ_of_ne_zero (Nat.ne_of_gt (Nat.lt_of_le_of_lt (Nat.zero_le _)
        (rank_lt_budgetFor .standard n)))
    obtain ⟨k, hk⟩ := hbudget (.call "reg_escape" default [.literal (.string ".") default] none)
    obtain ⟨k', hk'⟩ := hbudget (.call "array_get" default
      [.literal (.integer 1) default, .literal .null default] none)
    rw [optimize, optimize, optimizeNode, optimizeNode, hk, hk']
    · simp [optimizeAt, optimizeWith, optimizeAllWith, optimizeCall, hescape, hget,
        Function.regEscape, Function.arrayGet, Function.ofPure, Function.allows, Arity.accepts,
        Function.noCheck, Function.raiseAt, validate, raised, replacement?, memoFor,
        Node.literals?, Node.literal?, defaultMaxDepth, bind, Except.bind, pure, Except.pure]
    · exact List.cons_ne_nil _ _

end Optimizer

end CallScript
