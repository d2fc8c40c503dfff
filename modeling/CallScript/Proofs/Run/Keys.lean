import CallScript.Proofs.Function.Laws
import CallScript.Proofs.Node.Levels

/-!
# Trees with memo keys

A tree is well keyed (`Node.WellKeyed` at every node) if its memo keys are those that the optimizer
gives: the key of a call with literal arguments, of a function that allows that its results are kept.
Then it makes no difference to a run which results are kept, and a call with a key is as good as one
without.

* `agrees_evalAt`: a well keyed tree is evaluated alike in sessions that are alike;
* `agrees_evalCall`: the memo key of a call can be left out.
-/

namespace CallScript

/-- The functions of the registry are lawful. -/
def Registry.AllLawful (r : Registry) : Prop := ∀ name f, r.get? name = some f → f.Lawful

theorem Registry.allLawful_standard : Registry.standard.AllLawful :=
  forall_standard fun _ hf => Function.lawful_of_mem_builtins hf

namespace Node

/-! ## 1. Well keyed trees -/

/-- A memo key of the node is the key of its call, the function allows that its results are kept, and
    the arguments keep to the limit. -/
def WellKeyed (r : Registry) (limit d : Nat) (n : Node) : Prop :=
  ∀ key, n.memo? = some key → n.memoKey? = some key ∧
    (∀ f, r.get? key.name = some f → f.allows .kept = true) ∧ (n.args ≠ [] → d < limit)

/-- A memo key of the node is the key of its call. -/
def CarriesOwnKey (n : Node) : Prop := ∀ key, n.memo? = some key → n.memoKey? = some key

/-- A memo key of the node is the key of its call, and the function allows that its results are
    kept. -/
def OwnKeyed (r : Registry) (n : Node) : Prop :=
  ∀ key, n.memo? = some key →
    n.memoKey? = some key ∧ ∀ f, r.get? key.name = some f → f.allows .kept = true

section

variable {r : Registry} {limit d : Nat}

theorem WellKeyed.ownKeyed {n : Node} (h : WellKeyed r limit d n) : OwnKeyed r n := by
  intro key hkey
  obtain ⟨hk, hkept, -⟩ := h key hkey
  exact ⟨hk, hkept⟩

theorem OwnKeyed.carriesOwnKey {n : Node} (h : OwnKeyed r n) : CarriesOwnKey n :=
  fun key hkey => (h key hkey).1

theorem carriesOwnKey_of_memo?_eq_none {n : Node} (h : n.memo? = none) : CarriesOwnKey n := by
  intro key hkey
  rw [h] at hkey
  cases hkey

theorem wellKeyed_of_memo?_eq_none {n : Node} (h : n.memo? = none) : WellKeyed r limit d n := by
  intro key hkey
  rw [h] at hkey
  cases hkey

/-- A tree without memo keys is well keyed, at every level. -/
theorem Unkeyed.wellKeyed {n : Node} (h : n.Unkeyed) : n.Every (WellKeyed r limit) 1 :=
  h.imp fun _ _ hm => wellKeyed_of_memo?_eq_none hm

/-- The key of a call has its name and its literals. -/
theorem memoKey?_call_eq_some {name : String} {p : Place} {args : List Node}
    {memo : Option MemoKey} {key : MemoKey}
    (h : (Node.call name p args memo).memoKey? = some key) :
    ∃ ls, literals? args = some ls ∧ key = ⟨name, ls⟩ := by
  have h : (literals? args).map (MemoKey.mk name) = some key := h
  obtain ⟨ls, hls, rfl⟩ := Option.map_eq_some_iff.1 h
  exact ⟨ls, hls, rfl⟩

/-- What is a list of literals is made up of a literal and a list of literals. -/
theorem literals?_cons_eq_some {n : Node} {ns : List Node} {ls : List Literal}
    (h : literals? (n :: ns) = some ls) :
    ∃ l q ls', n = .literal l q ∧ literals? ns = some ls' ∧ ls = l :: ls' := by
  cases n with
  | call => cases h
  | literal l q =>
      have h : (literals? ns).map (l :: ·) = some ls := h
      obtain ⟨ls', hls', rfl⟩ := Option.map_eq_some_iff.1 h
      exact ⟨l, q, ls', rfl, hls', rfl⟩

theorem isLiteral_of_literals? {ns : List Node} {ls : List Literal} (h : literals? ns = some ls) :
    ∀ n ∈ ns, n.isLiteral = true := by
  induction ns generalizing ls with
  | nil => exact nofun
  | cons n ns ih =>
      obtain ⟨l, q, ls', rfl, hls', rfl⟩ := literals?_cons_eq_some h
      exact List.forall_mem_cons.2 ⟨rfl, ih hls'⟩

theorem length_literals? {ns : List Node} {ls : List Literal} (h : literals? ns = some ls) :
    ls.length = ns.length := by
  induction ns generalizing ls with
  | nil =>
      cases h
      rfl
  | cons n ns ih =>
      obtain ⟨l, q, ls', rfl, hls', rfl⟩ := literals?_cons_eq_some h
      exact congrArg (· + 1) (ih hls')

end

end Node

namespace Evaluator

open Run Node

variable {r : Registry} {limit d : Nat}

/-! ## 2. Parts of a call -/

/-- Literals that keep to the limit have their values. -/
theorem evalAllAt_literals {ns : List Node} {ls : List Literal} (h : literals? ns = some ls)
    (hd : ns ≠ [] → d ≤ limit) :
    evalAllAt r limit d ns = pure (ls.map Literal.toValue) := by
  induction ns generalizing ls with
  | nil =>
      cases h
      rfl
  | cons n ns ih =>
      obtain ⟨l, q, ls', rfl, hls', rfl⟩ := literals?_cons_eq_some h
      have hd' := hd (List.cons_ne_nil _ _)
      rw [evalAllAt, evalAt_literal hd', ih hls' fun _ => hd']
      rfl

/-- A call of a function that takes its arguments is not refused. -/
theorem callee_of_get? {name : String} {f : Function} (hf : r.get? name = some f) (p : Place)
    {count : Nat} (ha : f.arity.accepts count = true) : callee r p name count = pure f := by
  unfold callee
  rw [hf]
  exact if_pos ha

/-- A call is of a function that takes its arguments, or it is refused. -/
theorem callee_cases (r : Registry) (p : Place) (name : String) (count : Nat) :
    (∃ f, r.get? name = some f ∧ f.arity.accepts count = true ∧
      callee r p name count = pure f) ∨
    ∃ e, callee r p name count = throw e := by
  cases hf : r.get? name with
  | none =>
      right
      unfold callee
      rw [hf]
      exact ⟨_, rfl⟩
  | some f =>
      by_cases ha : f.arity.accepts count = true
      · exact Or.inl ⟨f, rfl, ha, callee_of_get? hf p ha⟩
      · right
        unfold callee
        rw [hf]
        exact ⟨_, if_neg ha⟩

theorem evalCall_of_callee {name : String} {p : Place} {args : List Node} {f : Function}
    (h : callee r p name args.length = pure f) :
    evalCall r limit d name p args =
      (evalAllAt r limit (d + 1) args >>= fun vs => execute f name vs p) := by
  rw [evalCall, h]
  rfl

theorem evalCall_of_refused {name : String} {p : Place} {args : List Node} {e : RuntimeError}
    (h : callee r p name args.length = throw e) :
    evalCall r limit d name p args = throw e := by
  rw [evalCall, h]
  rfl

/-- **What a call with literal arguments gives is kept under the key that the call has**, whichever it
    is, if nothing was kept there. -/
theorem kept_of_literals {name : String} {f : Function} (hf : r.get? name = some f) {args : List Node}
    {ls : List Literal} (hls : literals? args = some ls) (ha : f.arity.accepts args.length = true)
    (hd : d + 1 ≤ limit) {p : Place} {v : Value}
    (hv : ∀ w, (f.execute (ls.map Literal.toValue) p w).1 = .ok v) {key : MemoKey} {s : Session}
    (hs : s.memo[key]? = none) :
    ∃ s', (evalAt r limit d (.call name p args (some key))).result s = (.ok v, s') ∧
      s'.memo[key]? = some v := by
  have hcall : ∀ t, ∃ t', (evalCall r limit d name p args).result t = (.ok v, t') := by
    intro t
    rw [evalCall_of_callee (callee_of_get? hf p ha), evalAllAt_literals hls fun _ => hd]
    have hresult := result_execute f name (ls.map Literal.toValue) p t
    rw [hv] at hresult
    exact ⟨_, hresult⟩
  obtain ⟨t', ht'⟩ := hcall { s with memo := makeRoom s.memo }
  rw [evalAt_call_some (Nat.le_of_succ_le hd), result_remember, hs]
  dsimp only
  rw [ht']
  exact ⟨_, rfl, Std.HashMap.getElem?_insert_self⟩

/-- Two functions that do the same with their arguments are carried out alike. -/
theorem agrees_execute {f g : Function} (hf : f.Blind) {name name' : String}
    {vs vs' : List Value} {p : Place} (h : ∀ w, f.execute vs p w = g.execute vs' p w) :
    Agrees r (execute f name vs p) (execute g name' vs' p) := by
  intro sv a b s t hst
  rw [result_execute, result_execute, ← h]
  obtain ⟨he, hw⟩ := hf vs p sv a b _ _ (hst.world.note name name' vs vs')
  exact ⟨congrArg (Except.mapError RuntimeError.exception) he, hw, hst.left, hst.right⟩

/-- Calls with arguments that are evaluated alike are carried out alike. -/
theorem agrees_evalCall_congr (hr : r.AllLawful) {name : String} {p : Place}
    {args args' : List Node} (hlen : args'.length = args.length)
    (h : Agrees r (evalAllAt r limit (d + 1) args) (evalAllAt r limit (d + 1) args')) :
    Agrees r (evalCall r limit d name p args) (evalCall r limit d name p args') := by
  rcases callee_cases r p name args.length with ⟨f, hf, -, hc⟩ | ⟨e, hc⟩
  · rw [evalCall_of_callee hc, evalCall_of_callee (hlen ▸ hc)]
    exact h.bind fun vs => agrees_execute (hr name f hf).blind fun _ => rfl
  · rw [evalCall_of_refused hc, evalCall_of_refused (hlen ▸ hc)]
    exact .throw e

/-- What a call with literal arguments gives is always given, if it may be kept. -/
theorem gives_of_result {name : String} {p : Place} {args : List Node} {ls : List Literal}
    (hr : r.AllLawful) (hls : literals? args = some ls)
    (hkept : ∀ f, r.get? name = some f → f.allows .kept = true) (hd : args ≠ [] → d < limit)
    {s s' : Session} {v : Value}
    (h : (evalCall r limit d name p args).result s = (.ok v, s')) :
    (MemoKey.mk name ls).Gives r v := by
  rcases callee_cases r p name args.length with ⟨f, hf, ha, hc⟩ | ⟨e, hc⟩
  · rw [evalCall_of_callee hc, evalAllAt_literals hls hd] at h
    have h : (execute f name (ls.map Literal.toValue) p).result s = (.ok v, s') := h
    have hv := execute_eq_ok h
    refine ⟨f, hf, ?_, fun p' w' => ((hr name f hf).kept (hkept f hf)).always hv p' w'⟩
    show f.arity.accepts ls.length = true
    rw [length_literals? hls]
    exact ha
  · rw [evalCall_of_refused hc] at h
    cases h

/-- What a call with literal arguments always gives is what it gives now. -/
theorem agrees_of_gives {name : String} {p : Place} {args : List Node} {ls : List Literal}
    (hls : literals? args = some ls) (hd : args ≠ [] → d < limit) {v : Value}
    (h : (MemoKey.mk name ls).Gives r v) :
    Agrees r (pure v) (evalCall r limit d name p args) := by
  obtain ⟨f, hf, ha, hx⟩ := h
  have hc : callee r p name args.length = pure f := by
    rw [length_literals? hls] at ha
    exact callee_of_get? hf p ha
  rw [evalCall_of_callee hc, evalAllAt_literals hls hd]
  intro sv a b s t hst
  show _ = ((execute f name (ls.map Literal.toValue) p).result t).1 ∧
    Session.Alike r sv a b _ ((execute f name (ls.map Literal.toValue) p).result t).2
  rw [result_execute, hx]
  exact ⟨rfl, hst.world.note_right name _, hst.left, hst.right⟩

/-! ## 3. Whole trees -/

/-- **The memo key of a call can be left out**, if it is one that the optimizer gives. -/
theorem agrees_evalCall (hr : r.AllLawful) (hd : d ≤ limit) {name : String} {p : Place}
    {args : List Node} {memo : Option MemoKey}
    (hkey : WellKeyed r limit d (.call name p args memo))
    (hargs : Agrees r (evalAllAt r limit (d + 1) args) (evalAllAt r limit (d + 1) args)) :
    Agrees r (evalAt r limit d (.call name p args memo)) (evalCall r limit d name p args) := by
  have hself := @agrees_evalCall_congr r limit d hr name p args args rfl hargs
  cases memo with
  | none =>
      rw [evalAt_call_none hd]
      exact hself
  | some key =>
      obtain ⟨hk, hkept, hlt⟩ := hkey key rfl
      obtain ⟨ls, hls, rfl⟩ := memoKey?_call_eq_some hk
      rw [evalAt_call_some hd]
      exact agrees_remember hself (fun v hv => agrees_of_gives hls hlt hv)
        fun s s' v hv => gives_of_result hr hls hkept hlt hv

/-- A tree that is too deep is refused, whatever it is. -/
theorem evalAt_of_lt (h : limit < d) (n : Node) :
    evalAt r limit d n = throw (.nestingTooDeep n.place limit) := by
  cases n with
  | literal v p => exact if_pos h
  | call name p args memo =>
      rw [evalAt, if_pos h]
      rfl

mutual

/-- **A well keyed tree is evaluated alike in sessions that are alike.** -/
theorem agrees_evalAt (hr : r.AllLawful) : ∀ (n : Node) {d : Nat},
    n.Every (WellKeyed r limit) d → Agrees r (evalAt r limit d n) (evalAt r limit d n)
  | .literal v p, d, _ => by
      by_cases hd : limit < d
      · rw [evalAt_of_lt hd]
        exact .throw _
      · rw [evalAt_literal (Nat.not_lt.1 hd)]
        exact .pure _
  | .call name p args memo, d, h => by
      by_cases hd : limit < d
      · rw [evalAt_of_lt hd]
        exact .throw _
      · have hcall := agrees_evalCall hr (Nat.not_lt.1 hd) h.1 (agrees_evalAllAt hr args h.2)
        exact hcall.trans hcall.symm

theorem agrees_evalAllAt (hr : r.AllLawful) : ∀ (ns : List Node) {d : Nat},
    EveryIn (WellKeyed r limit) d ns →
    Agrees r (evalAllAt r limit d ns) (evalAllAt r limit d ns)
  | [], _, _ => .pure _
  | n :: ns, _, h =>
      (agrees_evalAt hr n h.1).bind fun _ =>
        (agrees_evalAllAt hr ns h.2).bind fun _ => .pure _

end

/-- Well keyed statements are evaluated alike in sessions that are alike. -/
theorem agrees_evalFrom (hr : r.AllLawful) : ∀ (p : Program) (last : Value),
    (∀ n ∈ p, n.Every (WellKeyed r limit) 1) →
    Agrees r (evalFrom r limit last p) (evalFrom r limit last p)
  | [], _, _ => .pure _
  | n :: ns, _, h =>
      (agrees_evalAt hr n (h n List.mem_cons_self)).bind fun v =>
        agrees_evalFrom hr ns v fun m hm => h m (List.mem_cons_of_mem _ hm)

end Evaluator

end CallScript
