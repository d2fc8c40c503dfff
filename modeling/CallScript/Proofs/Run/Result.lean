import CallScript.Evaluator

/-!
# What a run gives

A run starts in a session and leaves another one, with a value or a failure (`Run.result`). The steps
that runs are made of have one equation each.

* `Run.Avoids` says that a run does not fail in a certain way, whatever the session.
* `Evaluator.evalCall` is what is left of a call once its level is accepted and no result of it is
  kept.
-/

namespace CallScript

/-- A session in which nothing has happened. -/
def Session.fresh (services : Services) : Session := ⟨∅, World.fresh services⟩

namespace Run

variable {α β : Type}

/-! ## 1. Results -/

/-- What a run gives in a session, and the session that it leaves. -/
def result (m : Run α) (s : Session) : Except RuntimeError α × Session := m.run.run s

@[simp] theorem result_pure (a : α) (s : Session) : result (pure a) s = (.ok a, s) := rfl

@[simp] theorem result_throw (e : RuntimeError) (s : Session) :
    result (throw e : Run α) s = (.error e, s) := rfl

@[simp] theorem result_get (s : Session) : result get s = (.ok s, s) := rfl

@[simp] theorem result_set (s' s : Session) : result (set s' : Run PUnit) s = (.ok ⟨⟩, s') := rfl

@[simp] theorem result_modify (f : Session → Session) (s : Session) :
    result (modify f : Run PUnit) s = (.ok ⟨⟩, f s) := rfl

/-- A failure ends a run; after a value, the run goes on where the session stands. -/
theorem result_bind (m : Run α) (f : α → Run β) (s : Session) :
    result (m >>= f) s =
      match result m s with
      | (.ok a, s') => result (f a) s'
      | (.error e, s') => (.error e, s') := by
  show (ExceptT.bindCont f (result m s).1 : StateM Session (Except RuntimeError β)) (result m s).2 = _
  rcases result m s with ⟨⟨e⟩ | ⟨a⟩, s'⟩
  · rfl
  · rfl

theorem result_bind_of_ok {m : Run α} {f : α → Run β} {s s' : Session} {a : α}
    (h : result m s = (.ok a, s')) : result (m >>= f) s = result (f a) s' := by
  rw [result_bind, h]

theorem result_bind_of_error {m : Run α} {f : α → Run β} {s s' : Session} {e : RuntimeError}
    (h : result m s = (.error e, s')) : result (m >>= f) s = (.error e, s') := by
  rw [result_bind, h]

/-- A run that gives a value gave one at each of its steps. -/
theorem result_bind_eq_ok {m : Run α} {f : α → Run β} {s s' : Session} {b : β}
    (h : result (m >>= f) s = (.ok b, s')) :
    ∃ a t, result m s = (.ok a, t) ∧ result (f a) t = (.ok b, s') := by
  rw [result_bind] at h
  rcases hm : result m s with ⟨e | a, t⟩
  · simp [hm] at h
  · exact ⟨a, t, rfl, by simpa [hm] using h⟩

/-- A run that fails did so at its first step or after it. -/
theorem result_bind_eq_error {m : Run α} {f : α → Run β} {s s' : Session} {e : RuntimeError}
    (h : result (m >>= f) s = (.error e, s')) :
    result m s = (.error e, s') ∨
      ∃ a t, result m s = (.ok a, t) ∧ result (f a) t = (.error e, s') := by
  rw [result_bind] at h
  rcases hm : result m s with ⟨e' | a, t⟩
  · simp only [hm] at h
    cases h
    exact Or.inl rfl
  · simp only [hm] at h
    exact Or.inr ⟨a, t, rfl, h⟩

/-! ## 2. Failures that do not happen -/

/-- Whatever the session, the run does not fail in such a way. -/
def Avoids (P : RuntimeError → Prop) (m : Run α) : Prop :=
  ∀ s e s', result m s = (.error e, s') → ¬ P e

section

variable {P : RuntimeError → Prop}

theorem Avoids.pure (a : α) : Avoids P (Pure.pure a : Run α) := by
  intro s e s' h
  cases h

theorem Avoids.throw {e : RuntimeError} (h : ¬ P e) : Avoids P (throw e : Run α) := by
  intro s e' s' he
  cases he
  exact h

theorem Avoids.bind {m : Run α} {f : α → Run β} (hm : Avoids P m) (hf : ∀ a, Avoids P (f a)) :
    Avoids P (m >>= f) := by
  intro s e s' h
  rcases result_bind_eq_error h with h | ⟨a, t, -, h⟩
  · exact hm s e s' h
  · exact hf a t e s' h

end

end Run

/-! ## 3. Calls -/

namespace Evaluator

variable (r : Registry) (maxDepth depth : Nat)

/-- A call whose level is accepted and of which no result is kept: the function, the arguments, and
    the work. -/
def evalCall (name : String) (p : Place) (args : List Node) : Run Value := do
  let f ← callee r p name args.length
  let vs ← evalAllAt r maxDepth (depth + 1) args
  execute f name vs p

variable {r maxDepth depth}

theorem evalAt_call_none {name : String} {p : Place} {args : List Node} (h : depth ≤ maxDepth) :
    evalAt r maxDepth depth (.call name p args none) = evalCall r maxDepth depth name p args := by
  rw [evalAt, if_neg (Nat.not_lt.2 h)]
  rfl

theorem evalAt_call_some {name : String} {p : Place} {args : List Node} {key : MemoKey}
    (h : depth ≤ maxDepth) :
    evalAt r maxDepth depth (.call name p args (some key)) =
      remember key (evalCall r maxDepth depth name p args) := by
  rw [evalAt, if_neg (Nat.not_lt.2 h)]
  rfl

theorem evalAt_literal {v : Literal} {p : Place} (h : depth ≤ maxDepth) :
    evalAt r maxDepth depth (.literal v p) = pure v.toValue := by
  rw [evalAt, if_neg (Nat.not_lt.2 h)]

/-- A program is evaluated as a list of expressions is, and its value is the last one. -/
theorem evalFrom_eq (p : Program) (last : Value) :
    evalFrom r maxDepth last p =
      evalAllAt r maxDepth 1 p >>= fun vs => pure (vs.getLastD last) := by
  induction p generalizing last with
  | nil =>
      rw [evalFrom, evalAllAt, pure_bind]
      rfl
  | cons n ns ih =>
      rw [evalFrom, evalAllAt, bind_assoc]
      refine congrArg _ (funext fun v => ?_)
      rw [ih, bind_assoc]
      refine congrArg _ (funext fun vs => ?_)
      rw [pure_bind, List.getLastD_cons]

section

variable {ε ε' α : Type} {f : ε → ε'}

theorem mapError_ok (a : α) : (Except.ok a : Except ε α).mapError f = .ok a := rfl

theorem mapError_error (e : ε) : (Except.error e : Except ε α).mapError f = .error (f e) := rfl

/-- Another error in place of the error does not touch a value. -/
theorem mapError_eq_ok {x : Except ε α} {a : α} (h : x.mapError f = .ok a) : x = .ok a := by
  cases x with
  | error e => cases h
  | ok b =>
      cases h
      rfl

theorem mapError_eq_error {x : Except ε α} {e' : ε'} (h : x.mapError f = .error e') :
    ∃ e, x = .error e ∧ f e = e' := by
  cases x with
  | error e =>
      cases h
      exact ⟨e, rfl, rfl⟩
  | ok b => cases h

end

/-- What the work of a call gives. -/
theorem result_execute (f : Function) (name : String) (args : List Value) (p : Place)
    (s : Session) :
    Run.result (execute f name args p) s =
      ((f.execute args p (s.world.note name args)).1.mapError RuntimeError.exception,
        { s with world := (f.execute args p (s.world.note name args)).2 }) := by
  unfold execute
  rw [Run.result_bind_of_ok (Run.result_get s)]
  rcases hf : f.execute args p (s.world.note name args) with ⟨e | v, w⟩
  · rfl
  · rfl

/-- What a call gives, its function gives. -/
theorem execute_eq_ok {f : Function} {name : String} {args : List Value} {p : Place}
    {s s' : Session} {v : Value} (h : Run.result (execute f name args p) s = (.ok v, s')) :
    (f.execute args p (s.world.note name args)).1 = .ok v := by
  rw [result_execute] at h
  exact mapError_eq_ok (Prod.mk.inj h).1

/-- What looking up a kept result gives: the result that is kept, or else the one that is computed now
    and kept from now on. -/
theorem result_remember (key : MemoKey) (m : Run Value) (s : Session) :
    (remember key m).result s =
      match s.memo[key]? with
      | some v => (.ok v, s)
      | none =>
        match m.result { s with memo := makeRoom s.memo } with
        | (.ok v, s') => (.ok v, { s' with memo := s'.memo.insert key v })
        | (.error e, s') => (.error e, s') := by
  unfold remember
  rw [Run.result_bind_of_ok (Run.result_get s)]
  cases hkey : s.memo[key]? with
  | some v => rfl
  | none =>
      dsimp only
      rw [Run.result_bind_of_ok (Run.result_set _ s)]
      rcases hv : m.result { s with memo := makeRoom s.memo } with ⟨e | v, s'⟩
      · rw [Run.result_bind_of_error hv]
      · rw [Run.result_bind_of_ok hv, Run.result_bind_of_ok (Run.result_modify _ s')]
        rfl

theorem avoids_callee {P : RuntimeError → Prop} {p : Place} {name : String} {count : Nat}
    (h₁ : ¬ P (.notDefined p name)) (h₂ : ∀ a, ¬ P (.wrongArgumentCount p name a count)) :
    Run.Avoids P (callee r p name count) := by
  unfold callee
  split
  · exact .throw h₁
  · split
    · exact .pure _
    · exact .throw (h₂ _)

theorem avoids_execute {P : RuntimeError → Prop} {f : Function} {name : String}
    {args : List Value} {p : Place} (h : ∀ e, ¬ P (.exception e)) :
    Run.Avoids P (execute f name args p) := by
  intro s e s' he
  rw [result_execute] at he
  obtain ⟨e', -, rfl⟩ := mapError_eq_error (Prod.mk.inj he).1
  exact h e'

theorem avoids_remember {P : RuntimeError → Prop} {key : MemoKey} {m : Run Value}
    (h : Run.Avoids P m) : Run.Avoids P (remember key m) := by
  intro s e s' he
  rw [result_remember] at he
  cases hkey : s.memo[key]? with
  | some v => simp [hkey] at he
  | none =>
      rcases hm : m.result { s with memo := makeRoom s.memo } with ⟨e' | v, t⟩
      · simp only [hkey, hm, Prod.mk.injEq, Except.error.injEq] at he
        rw [← he.1]
        exact h _ e' t hm
      · simp [hkey, hm] at he

end Evaluator

end CallScript
