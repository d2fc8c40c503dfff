import CallScript.Proofs.Run.Keys

/-!
# The effects of a run

A call has an effect if its function allows neither that its results are kept nor that it is left
out. What has to stay in order are the effects of a run: which functions are called, and with which
arguments (`Registry.effects`).

Which effects a tree has is said without a session (`Yields`): a tree has a value, and the effects
of its calls come one after the other. Where functions are determined by their arguments, there is
one value and one sequence of effects (`Yields.unique`), and a run that gives a value carries out
that sequence, whatever results were kept (`yields_of_evalAt`).

* `Registry.ExtendsStandard` says which registries this is about: the functions of the language, and
  host functions that are determined by their arguments and give no other calls;
* `extendsStandard_extend`: those registries come about by registering host functions.
-/

namespace CallScript

/-! ## 1. Effects -/

/-- Neither are results of the function kept nor are calls of it left out. -/
def Function.isEffectful (f : Function) : Bool := !f.allows .kept && !f.allows .droppable

namespace Registry

/-- The call that was carried out is one of a function with effects. -/
def isEffect (r : Registry) (x : Execution) : Bool :=
  match r.get? x.name with
  | some f => f.isEffectful
  | none => false

/-- The calls of functions with effects, in the order in which they were carried out. -/
def effects (r : Registry) (xs : List Execution) : List Execution := xs.filter r.isEffect

variable {r : Registry}

theorem effects_append (xs ys : List Execution) :
    r.effects (xs ++ ys) = r.effects xs ++ r.effects ys := List.filter_append xs ys

/-- A call of a function whose results may be kept, or whose calls may be left out, is no effect. -/
theorem effects_singleton_eq_nil {name : String} {f : Function} (hf : r.get? name = some f)
    (h : f.allows .kept = true ∨ f.allows .droppable = true) (vs : List Value) :
    r.effects [⟨name, vs⟩] = [] := by
  have heffect : r.isEffect ⟨name, vs⟩ = false := by
    unfold isEffect Function.isEffectful
    rw [hf]
    rcases h with h | h
    · simp [h]
    · simp [h]
  exact List.filter_cons_of_neg (by simp [heffect])

end Registry

/-! ## 2. Functions that are determined by their arguments -/

namespace Function

/-- There is a place and a world where a call with the arguments gives the value. -/
def CanGive (f : Function) (vs : List Value) (v : Value) : Prop :=
  ∃ p w, (f.execute vs p w).1 = .ok v

/-- **What a call gives depends on its arguments alone**: there is one value that it can give. Which
    calls were carried out is noted by the evaluator and not by functions. -/
structure Determined (f : Function) : Prop where
  value : ∀ vs v v', f.CanGive vs v → f.CanGive vs v' → v = v'
  executions : ∀ vs p w, (f.execute vs p w).2.executions = w.executions

variable {f : Function}

theorem Pure.determined (h : f.Pure) : f.Determined := by
  refine ⟨fun vs v v' hv hv' => ?_, fun vs p w => ?_⟩
  · obtain ⟨p, w, hv⟩ := hv
    obtain ⟨p', w', hv'⟩ := hv'
    rw [h.always hv p' w'] at hv'
    exact Except.ok.inj hv'
  · obtain ⟨compute, hf⟩ := h
    rw [hf]

theorem determined_console : console.Determined := by
  refine ⟨fun vs v v' hv hv' => ?_, fun vs p w => ?_⟩
  · obtain ⟨p, w, hv⟩ := hv
    obtain ⟨p', w', hv'⟩ := hv'
    exact Except.ok.inj (hv.symm.trans hv')
  · show (w.writeLine _).executions = w.executions
    unfold World.writeLine
    split
    · rfl
    · rfl

/-- The functions of the language are determined by their arguments. All but the console compute
    with them and do nothing else. -/
theorem determined_of_mem_builtins (hf : f ∈ Registry.builtins) : f.Determined := by
  by_cases hdrop : f.allows .droppable = true
  · exact ((lawful_of_mem_builtins hf).droppable hdrop).determined
  · have hconsole : f = console := by
      simp only [Registry.builtins, List.mem_cons, List.not_mem_nil, or_false] at hf
      rcases hf with rfl | rfl | rfl | rfl | rfl | rfl | rfl | rfl | rfl | rfl | rfl
      case inr.inr.inr.inr.inl => rfl
      all_goals exact absurd rfl hdrop
    exact hconsole ▸ determined_console

end Function

namespace Registry

/-- Every function of the registry is determined by its arguments. -/
def AllDetermined (r : Registry) : Prop := ∀ name f, r.get? name = some f → f.Determined

/-- **The registry has the functions of the language, and besides them host functions** that are
    determined by their arguments and give no other calls. -/
structure ExtendsStandard (r : Registry) : Prop where
  builtins : ∀ f ∈ builtins, r.get? f.name = some f
  others : ∀ name f, r.get? name = some f →
    f ∈ Registry.builtins ∨ (f.allows .rewritten = false ∧ f.Determined)

theorem ExtendsStandard.allDetermined {r : Registry} (h : r.ExtendsStandard) :
    r.AllDetermined := by
  intro name f hf
  rcases h.others name f hf with hmem | ⟨-, hdet⟩
  · exact Function.determined_of_mem_builtins hmem
  · exact hdet

/-- Host functions may be registered besides the functions of the language. -/
theorem extendsStandard_extend {hosts : List Function}
    (h : ∀ f ∈ hosts, f.allows .rewritten = false ∧ f.Determined) :
    (standard.extend hosts).ExtendsStandard := by
  refine ⟨fun f hf => get?_extend_of_standard (get?_name f hf), fun name f hf => ?_⟩
  rcases (mem_of_get?_extend hf).2 with hmem | hmem
  · exact .inl hmem
  · exact .inr (h f hmem)

end Registry

/-! ## 3. The value and the effects of a tree -/

mutual

/-- The expression has the value, and these are its effects. -/
inductive Yields (r : Registry) : Node → Value → List Execution → Prop
  | literal (l : Literal) (p : Place) : Yields r (.literal l p) l.toValue []
  /-- The effects of the arguments come first, and then the call, if it is one. -/
  | call {name : String} {args : List Node} {f : Function} {vs : List Value} {v : Value}
      {xs : List Execution} (p : Place) (memo : Option MemoKey) (hf : r.get? name = some f)
      (hargs : YieldAll r args vs xs) (hv : f.CanGive vs v) :
      Yields r (.call name p args memo) v (xs ++ r.effects [⟨name, vs⟩])

/-- The expressions have the values, and these are their effects. -/
inductive YieldAll (r : Registry) : List Node → List Value → List Execution → Prop
  | nil : YieldAll r [] [] []
  | cons {n : Node} {ns : List Node} {v : Value} {vs : List Value} {xs ys : List Execution}
      (h : Yields r n v xs) (hs : YieldAll r ns vs ys) :
      YieldAll r (n :: ns) (v :: vs) (xs ++ ys)

end

section

variable {r : Registry}

mutual

/-- **An expression has one value and one sequence of effects.** -/
theorem Yields.unique (hr : r.AllDetermined) : ∀ {n : Node} {v v' : Value}
    {xs xs' : List Execution}, Yields r n v xs → Yields r n v' xs' → v = v' ∧ xs = xs'
  | _, _, _, _, _, .literal _ _, .literal _ _ => ⟨rfl, rfl⟩
  | _, _, _, _, _, .call p memo hf hargs hv, .call _ _ hf' hargs' hv' => by
      obtain rfl := Option.some.inj (hf.symm.trans hf')
      obtain ⟨rfl, rfl⟩ := YieldAll.unique hr hargs hargs'
      exact ⟨(hr _ _ hf).value _ _ _ hv hv', rfl⟩

theorem YieldAll.unique (hr : r.AllDetermined) : ∀ {ns : List Node} {vs vs' : List Value}
    {xs xs' : List Execution}, YieldAll r ns vs xs → YieldAll r ns vs' xs' → vs = vs' ∧ xs = xs'
  | _, _, _, _, _, .nil, .nil => ⟨rfl, rfl⟩
  | _, _, _, _, _, .cons h hs, .cons h' hs' => by
      obtain ⟨rfl, rfl⟩ := Yields.unique hr h h'
      obtain ⟨rfl, rfl⟩ := YieldAll.unique hr hs hs'
      exact ⟨rfl, rfl⟩

end

/-- A literal in front has its value and no effects. -/
theorem yieldAll_literal_cons_iff {l : Literal} {p : Place} {ns : List Node} {ws : List Value}
    {xs : List Execution} :
    YieldAll r (.literal l p :: ns) ws xs ↔ ∃ vs, YieldAll r ns vs xs ∧ ws = l.toValue :: vs := by
  constructor
  · intro h
    cases h with
    | cons hl hs =>
        cases hl
        exact ⟨_, hs, rfl⟩
  · rintro ⟨vs, hs, rfl⟩
    exact .cons (.literal l p) hs

/-- A single expression has the effects that it has anywhere. -/
theorem yieldAll_singleton_iff {n : Node} {ws : List Value} {xs : List Execution} :
    YieldAll r [n] ws xs ↔ ∃ v, Yields r n v xs ∧ ws = [v] := by
  constructor
  · intro h
    cases h with
    | cons hn hs =>
        cases hs
        rw [List.append_nil]
        exact ⟨_, hn, rfl⟩
  · rintro ⟨v, hn, rfl⟩
    have hs := YieldAll.cons hn .nil
    rw [List.append_nil] at hs
    exact hs

/-- Literals have their values and no effects. -/
theorem yieldAll_literals {ns : List Node} {ls : List Literal} (h : Node.literals? ns = some ls) :
    YieldAll r ns (ls.map Literal.toValue) [] := by
  induction ns generalizing ls with
  | nil =>
      cases h
      exact .nil
  | cons n ns ih =>
      obtain ⟨l, q, ls', rfl, hls', rfl⟩ := Node.literals?_cons_eq_some h
      exact yieldAll_literal_cons_iff.2 ⟨_, ih hls', rfl⟩

/-- A call with literal arguments has no effects, if its results may be kept. -/
theorem yields_of_literals {name : String} {p : Place} {args : List Node} {memo : Option MemoKey}
    {ls : List Literal} {f : Function} {v : Value} (hls : Node.literals? args = some ls)
    (hf : r.get? name = some f) (hkept : f.allows .kept = true)
    (hv : f.CanGive (ls.map Literal.toValue) v) : Yields r (.call name p args memo) v [] := by
  have hcall := Yields.call p memo hf (yieldAll_literals hls) hv
  rw [Registry.effects_singleton_eq_nil hf (Or.inl hkept)] at hcall
  exact hcall

end

/-! ## 4. What a run carries out -/

/-- The value is one that a call of the key gave. -/
def MemoKey.Earned (r : Registry) (key : MemoKey) (v : Value) : Prop :=
  ∃ f, r.get? key.name = some f ∧ f.CanGive (key.args.map Literal.toValue) v

/-- **The effects lead from the first session to the second**, in which kept results are still those
    that calls gave. -/
structure Session.Leads (r : Registry) (xs : List Execution) (s s' : Session) : Prop where
  earned : s'.memo.All (MemoKey.Earned r)
  effects : r.effects s'.world.trace = r.effects s.world.trace ++ xs

namespace Session.Leads

variable {r : Registry} {xs ys : List Execution} {s s' s'' : Session}

theorem refl (h : s.memo.All (MemoKey.Earned r)) : Leads r [] s s :=
  ⟨h, (List.append_nil _).symm⟩

theorem trans (h : Leads r xs s s') (h' : Leads r ys s' s'') : Leads r (xs ++ ys) s s'' := by
  refine ⟨h'.earned, ?_⟩
  rw [h'.effects, h.effects, List.append_assoc]

/-- One more result that a call gave may be kept. -/
theorem insert (h : Leads r xs s s') {key : MemoKey} {v : Value} (hv : key.Earned r v) :
    Leads r xs s { s' with memo := s'.memo.insert key v } :=
  ⟨h.earned.insert hv, h.effects⟩

end Session.Leads

namespace Evaluator

open Run Node

variable {r : Registry} {limit : Nat}

/-- The work of a call leads on by the call, if it is an effect. -/
theorem leads_of_execute {f : Function} (hdet : f.Determined) {name : String} {vs : List Value}
    {p : Place} {s s' : Session} {v : Value} (hs : s.memo.All (MemoKey.Earned r))
    (h : (execute f name vs p).result s = (.ok v, s')) :
    f.CanGive vs v ∧ Session.Leads r (r.effects [⟨name, vs⟩]) s s' := by
  refine ⟨⟨p, s.world.note name vs, execute_eq_ok h⟩, ?_⟩
  rw [result_execute] at h
  obtain rfl : { s with world := _ } = s' := (Prod.mk.inj h).2
  refine ⟨hs, ?_⟩
  have htrace : (f.execute vs p (s.world.note name vs)).2.trace =
      s.world.trace ++ [⟨name, vs⟩] := by
    unfold World.trace
    rw [hdet.executions]
    exact List.reverse_cons
  show r.effects (f.execute vs p (s.world.note name vs)).2.trace = _
  rw [htrace, Registry.effects_append]

/-- A call yields what its function gives for what its arguments yield. -/
theorem yields_of_evalCall (hr : r.AllDetermined) {name : String} {p : Place}
    {args : List Node} {d : Nat} {s s' : Session} {v : Value}
    (hargs : ∀ vs t, (evalAllAt r limit (d + 1) args).result s = (.ok vs, t) →
      ∃ xs, YieldAll r args vs xs ∧ Session.Leads r xs s t)
    (h : (evalCall r limit d name p args).result s = (.ok v, s')) (memo : Option MemoKey) :
    ∃ xs, Yields r (.call name p args memo) v xs ∧ Session.Leads r xs s s' := by
  rcases callee_cases r p name args.length with ⟨f, hf, -, hc⟩ | ⟨e, hc⟩
  · rw [evalCall_of_callee hc] at h
    obtain ⟨vs, t, hvs, hv⟩ := result_bind_eq_ok h
    obtain ⟨xs, hyield, hleads⟩ := hargs vs t hvs
    obtain ⟨hgive, hlast⟩ := leads_of_execute (hr name f hf) hleads.earned hv
    exact ⟨xs ++ r.effects [⟨name, vs⟩], .call p memo hf hyield hgive, hleads.trans hlast⟩
  · rw [evalCall_of_refused hc] at h
    cases h

/-- What a call with literal arguments yields is what its key may keep. -/
theorem earned_of_yields (hr : r.AllDetermined) {name : String} {p : Place} {args : List Node}
    {memo : Option MemoKey} {ls : List Literal} (hls : literals? args = some ls) {v : Value}
    {xs : List Execution} (h : Yields r (.call name p args memo) v xs) :
    (MemoKey.mk name ls).Earned r v := by
  cases h with
  | call p memo hf hargs hv =>
      obtain ⟨rfl, -⟩ := hargs.unique hr (yieldAll_literals hls)
      exact ⟨_, hf, hv⟩

mutual

/-- **A run that gives a value carries out the effects of the tree**, in a session whose kept
    results were given by calls. A result that is found among those stands for a call without
    effects. -/
theorem yields_of_evalAt (hr : r.AllDetermined) : ∀ (n : Node) {d : Nat} {s s' : Session}
    {v : Value}, n.Every (fun _ => OwnKeyed r) d → s.memo.All (MemoKey.Earned r) →
    (evalAt r limit d n).result s = (.ok v, s') →
    ∃ xs, Yields r n v xs ∧ Session.Leads r xs s s'
  | .literal l p, d, s, s', v, _, hs, h => by
      by_cases hd : limit < d
      · rw [evalAt_of_lt hd] at h
        cases h
      · rw [evalAt_literal (Nat.not_lt.1 hd)] at h
        cases h
        exact ⟨[], .literal l p, .refl hs⟩
  | .call name p args memo, d, s, s', v, hkey, hs, h => by
      by_cases hd : limit < d
      · rw [evalAt_of_lt hd] at h
        cases h
      have hcall : ∀ t, t.memo.All (MemoKey.Earned r) → ∀ v t',
          (evalCall r limit d name p args).result t = (.ok v, t') →
          ∃ xs, Yields r (.call name p args memo) v xs ∧ Session.Leads r xs t t' :=
        fun t ht v t' hv => yields_of_evalCall hr
          (fun vs u hvs => yieldAll_of_evalAllAt hr args hkey.2 ht hvs) hv memo
      cases memo with
      | none =>
          rw [evalAt_call_none (Nat.not_lt.1 hd)] at h
          exact hcall s hs v s' h
      | some key =>
          obtain ⟨hk, hkept⟩ := hkey.1 key rfl
          obtain ⟨ls, hls, rfl⟩ := memoKey?_call_eq_some hk
          rw [evalAt_call_some (Nat.not_lt.1 hd), result_remember] at h
          cases hfound : s.memo[MemoKey.mk name ls]? with
          | some v' =>
              rw [hfound] at h
              cases h
              obtain ⟨f, hf, hgive⟩ := hs _ v hfound
              exact ⟨[], yields_of_literals hls hf (hkept f hf) hgive, .refl hs⟩
          | none =>
              rw [hfound] at h
              rcases hrun : (evalCall r limit d name p args).result
                { s with memo := makeRoom s.memo } with ⟨e | v', t⟩
              · rw [hrun] at h
                cases h
              · rw [hrun] at h
                cases h
                obtain ⟨xs, hyield, hleads⟩ := hcall _ hs.makeRoom v t hrun
                have hlead : Session.Leads r xs s t := ⟨hleads.earned, hleads.effects⟩
                exact ⟨xs, hyield, hlead.insert (earned_of_yields hr hls hyield)⟩

theorem yieldAll_of_evalAllAt (hr : r.AllDetermined) : ∀ (ns : List Node) {d : Nat}
    {s s' : Session} {vs : List Value}, EveryIn (fun _ => OwnKeyed r) d ns →
    s.memo.All (MemoKey.Earned r) → (evalAllAt r limit d ns).result s = (.ok vs, s') →
    ∃ xs, YieldAll r ns vs xs ∧ Session.Leads r xs s s'
  | [], _, _, _, _, _, hs, h => by
      cases h
      exact ⟨[], .nil, .refl hs⟩
  | n :: ns, d, s, s', vs, hkey, hs, h => by
      rw [evalAllAt] at h
      obtain ⟨v, t, hv, h⟩ := result_bind_eq_ok h
      obtain ⟨vs', u, hvs, h⟩ := result_bind_eq_ok h
      cases h
      obtain ⟨xs, hyield, hleads⟩ := yields_of_evalAt hr n hkey.1 hs hv
      obtain ⟨ys, hyields, hleads'⟩ := yieldAll_of_evalAllAt hr ns hkey.2 hleads.earned hvs
      exact ⟨xs ++ ys, .cons hyield hyields, hleads.trans hleads'⟩

end

/-- A run of statements carries out their effects, statement by statement. -/
theorem yieldAll_of_evalFrom (hr : r.AllDetermined) : ∀ (p : Program) {last v : Value}
    {s s' : Session}, (∀ n ∈ p, n.Every (fun _ => OwnKeyed r) 1) →
    s.memo.All (MemoKey.Earned r) → (evalFrom r limit last p).result s = (.ok v, s') →
    ∃ vs xs, YieldAll r p vs xs ∧ Session.Leads r xs s s'
  | [], _, _, _, _, _, hs, h => by
      cases h
      exact ⟨[], [], .nil, .refl hs⟩
  | n :: ns, last, v, s, s', hkey, hs, h => by
      obtain ⟨hn, hns⟩ := List.forall_mem_cons.1 hkey
      rw [evalFrom] at h
      obtain ⟨v', t, hv, h⟩ := result_bind_eq_ok h
      obtain ⟨xs, hyield, hleads⟩ := yields_of_evalAt hr n hn hs hv
      obtain ⟨vs, ys, hyields, hleads'⟩ := yieldAll_of_evalFrom hr ns hns hleads.earned h
      exact ⟨v' :: vs, xs ++ ys, .cons hyield hyields, hleads.trans hleads'⟩

end Evaluator

end CallScript
