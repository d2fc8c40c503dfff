import CallScript.Proofs.Run.Keys

/-!
# Nodes that a run comes to

A run comes to the nodes of a program one after another, up to its first failure, and it does not come
to the arguments of a call whose result is kept (`visitsAllAt`). A visit tells the level of the node and
whether a result was kept for it.

* `eval_tooDeep_iff`: a program fails for its depth exactly where it comes to a node deeper than the
  limit;
* `finds` picks from the visits those on which it depends whether the levels below the limit are
  looked at: the calls at the limit that have arguments and a memo key.
-/

namespace CallScript

/-- A result is kept under the memo key, if there is one. -/
def Session.keeps (s : Session) (memo : Option MemoKey) : Bool :=
  match memo with
  | some key => s.memo[key]?.isSome
  | none => false

/-- The session in which the arguments of a call are evaluated. -/
def Session.enter (s : Session) (memo : Option MemoKey) : Session :=
  match memo with
  | some _ => { s with memo := Evaluator.makeRoom s.memo }
  | none => s

/-- There is a function with the name that takes the number of arguments. -/
def Registry.takes (r : Registry) (name : String) (count : Nat) : Bool :=
  match r.get? name with
  | some f => f.arity.accepts count
  | none => false

/-- A node that a run comes to: its level, and whether a result is kept for it at that moment. -/
structure Visit where
  level : Nat
  node : Node
  kept : Bool

/-- The visit is to a call at the limit that has a memo key and arguments. -/
def Visit.isAtLimit (limit : Nat) (v : Visit) : Bool :=
  v.level = limit && v.node.memo?.isSome && !v.node.args.isEmpty

/-- For the calls at the limit that have a memo key and arguments: whether their results are kept. -/
def finds (limit : Nat) (vs : List Visit) : List Bool :=
  (vs.filter (Visit.isAtLimit limit)).map Visit.kept

namespace Evaluator

open Run Node

variable (r : Registry) (limit : Nat)

/-! ## 1. Visits -/

mutual

/-- The nodes that the evaluation of an expression at a level comes to, in order. -/
def visitsAt (d : Nat) : Node → Session → List Visit
  | .literal v p, _ => [⟨d, .literal v p, false⟩]
  | .call name p args memo, s =>
    ⟨d, .call name p args memo, s.keeps memo⟩ ::
      if limit < d || s.keeps memo || !r.takes name args.length then []
      else visitsAllAt (d + 1) args (s.enter memo)

/-- The nodes that the evaluation of expressions comes to, up to the first failure. -/
def visitsAllAt (d : Nat) : List Node → Session → List Visit
  | [], _ => []
  | n :: ns, s =>
    visitsAt d n s ++
      match (evalAt r limit d n).result s with
      | (.ok _, s') => visitsAllAt d ns s'
      | (.error _, _) => []

end

variable {r limit} {d : Nat}

/-! ## 2. Levels -/

mutual

/-- A run does not come to more levels than the tree has. -/
theorem level_add_depth_le : ∀ (n : Node) {d : Nat} {s : Session} {v : Visit},
    v ∈ visitsAt r limit d n s → v.level + v.node.depth ≤ d + n.depth
  | .literal l p, d, s, v, hv => by
      obtain rfl := List.mem_singleton.1 hv
      exact Nat.le_refl _
  | .call name p args memo, d, s, v, hv => by
      rw [visitsAt] at hv
      rcases List.mem_cons.1 hv with rfl | hv
      · exact Nat.le_refl _
      · split at hv
        · exact absurd hv List.not_mem_nil
        · have hargs := level_add_depthAll_le args hv
          show _ ≤ d + (depthAll args + 1)
          omega

theorem level_add_depthAll_le : ∀ (ns : List Node) {d : Nat} {s : Session} {v : Visit},
    v ∈ visitsAllAt r limit d ns s → v.level + v.node.depth ≤ d + depthAll ns
  | [], _, _, _, hv => absurd hv List.not_mem_nil
  | n :: ns, d, s, v, hv => by
      rw [visitsAllAt] at hv
      show _ ≤ d + max n.depth (depthAll ns)
      rcases List.mem_append.1 hv with hv | hv
      · have hfirst := level_add_depth_le n hv
        omega
      · split at hv
        · have hrest := level_add_depthAll_le ns hv
          omega
        · exact absurd hv List.not_mem_nil

end

/-- Where the limit leaves room for all expressions, no call with arguments is at the limit. -/
theorem finds_eq_nil {ns : List Node} (h : depthAll ns ≤ limit) (s : Session) :
    finds limit (visitsAllAt r limit 1 ns s) = [] := by
  unfold finds
  rw [List.map_eq_nil_iff, List.filter_eq_nil_iff]
  intro v hv hat
  have hlevel := level_add_depthAll_le ns hv
  simp only [Visit.isAtLimit, Bool.and_eq_true, decide_eq_true_eq] at hat
  obtain ⟨⟨hat, -⟩, hargs⟩ := hat
  rcases v with ⟨d, _ | ⟨name, q, _ | ⟨m, ms⟩, memo⟩, kept⟩
  · cases hargs
  · cases hargs
  · have hm := one_le_depth m
    have hlevel : d + (max m.depth (depthAll ms) + 1) ≤ 1 + depthAll ns := hlevel
    have hat : d = limit := hat
    omega

/-! ## 3. Calls that are refused -/

theorem callee_of_takes {name : String} {count : Nat} (h : r.takes name count = true) (p : Place) :
    ∃ f, r.get? name = some f ∧ callee r p name count = pure f := by
  unfold Registry.takes at h
  cases hf : r.get? name with
  | none =>
      rw [hf] at h
      cases h
  | some f =>
      rw [hf] at h
      exact ⟨f, rfl, callee_of_get? hf p h⟩

theorem callee_of_not_takes {name : String} {count : Nat} (h : r.takes name count = false)
    (p : Place) : ∃ e, callee r p name count = throw e := by
  rcases callee_cases r p name count with ⟨f, hf, ha, -⟩ | ⟨e, hc⟩
  · have htakes : r.takes name count = true := by
      unfold Registry.takes
      rw [hf]
      exact ha
    cases h.symm.trans htakes
  · exact ⟨e, hc⟩

/-- **A call fails if no result of it is kept**, and its arguments or its work fail. -/
theorem evalAt_call_eq_error {name : String} {p : Place} {args : List Node}
    {memo : Option MemoKey} {s s' : Session} {e : RuntimeError} (hd : d ≤ limit) :
    (evalAt r limit d (.call name p args memo)).result s = (.error e, s') ↔
      s.keeps memo = false ∧
        (evalCall r limit d name p args).result (s.enter memo) = (.error e, s') := by
  cases memo with
  | none =>
      rw [evalAt_call_none hd]
      exact ⟨fun h => ⟨rfl, h⟩, And.right⟩
  | some key =>
      rw [evalAt_call_some hd, result_remember]
      show _ ↔ s.memo[key]?.isSome = false ∧
        (evalCall r limit d name p args).result { s with memo := makeRoom s.memo } = _
      cases hkey : s.memo[key]? with
      | some v => exact ⟨nofun, fun h => nomatch h.1⟩
      | none =>
          rcases hv : (evalCall r limit d name p args).result
            { s with memo := makeRoom s.memo } with ⟨e' | v, t⟩
          · exact ⟨fun h => ⟨rfl, h⟩, And.right⟩
          · exact ⟨nofun, fun h => nomatch h.2⟩

/-! ## 4. What lies deeper than the limit -/

mutual

/-- **A run that comes to a node deeper than the limit fails there.** -/
theorem result_of_visitsAt : ∀ (n : Node) {d : Nat} {s : Session} {v : Visit},
    v ∈ visitsAt r limit d n s → limit < v.level →
    ∃ s', (evalAt r limit d n).result s = (.error (.nestingTooDeep v.node.place limit), s')
  | .literal l p, d, s, v, hv, hlevel => by
      obtain rfl := List.mem_singleton.1 hv
      exact ⟨s, by rw [evalAt_of_lt hlevel]; rfl⟩
  | .call name p args memo, d, s, v, hv, hlevel => by
      rw [visitsAt] at hv
      rcases List.mem_cons.1 hv with rfl | hv
      · exact ⟨s, by rw [evalAt_of_lt hlevel]; rfl⟩
      · split at hv
        · exact absurd hv List.not_mem_nil
        · next hcond =>
          simp only [Bool.or_eq_true, decide_eq_true_eq, not_or, Bool.not_eq_true,
            Bool.not_eq_false'] at hcond
          obtain ⟨⟨hd, hkeeps⟩, htakes⟩ := hcond
          obtain ⟨s', hs'⟩ := result_of_visitsAllAt args hv hlevel
          obtain ⟨f, -, hc⟩ := callee_of_takes (by simpa using htakes) p
          refine ⟨s', (evalAt_call_eq_error (Nat.not_lt.1 hd)).2 ⟨hkeeps, ?_⟩⟩
          rw [evalCall_of_callee hc]
          exact result_bind_of_error hs'

theorem result_of_visitsAllAt : ∀ (ns : List Node) {d : Nat} {s : Session} {v : Visit},
    v ∈ visitsAllAt r limit d ns s → limit < v.level →
    ∃ s', (evalAllAt r limit d ns).result s = (.error (.nestingTooDeep v.node.place limit), s')
  | [], _, _, _, hv, _ => absurd hv List.not_mem_nil
  | n :: ns, d, s, v, hv, hlevel => by
      rw [visitsAllAt] at hv
      rw [evalAllAt]
      rcases List.mem_append.1 hv with hv | hv
      · obtain ⟨s', hs'⟩ := result_of_visitsAt n hv hlevel
        exact ⟨s', result_bind_of_error hs'⟩
      · rcases hn : (evalAt r limit d n).result s with ⟨e | u, s'⟩
        · rw [hn] at hv
          exact absurd hv List.not_mem_nil
        · rw [hn] at hv
          obtain ⟨s'', hs''⟩ := result_of_visitsAllAt ns hv hlevel
          exact ⟨s'', (result_bind_of_ok hn).trans (result_bind_of_error hs'')⟩

end

/-! ## 5. Failures for depth -/

/-- A call that fails for a depth did so among its arguments: neither a refusal nor a function does. -/
theorem evalAllAt_of_evalCall_tooDeep {name : String} {p q : Place} {args : List Node} {l : Nat}
    {s s' : Session}
    (h : (evalCall r limit d name p args).result s = (.error (.nestingTooDeep q l), s')) :
    r.takes name args.length = true ∧
      (evalAllAt r limit (d + 1) args).result s = (.error (.nestingTooDeep q l), s') := by
  cases htakes : r.takes name args.length with
  | false =>
      have havoids : Avoids (· = .nestingTooDeep q l) (callee r p name args.length) :=
        avoids_callee nofun nofun
      obtain ⟨e, hc⟩ := callee_of_not_takes htakes p
      rw [evalCall_of_refused hc] at h
      cases h
      rw [hc] at havoids
      exact absurd rfl (havoids s _ s rfl)
  | true =>
      obtain ⟨f, -, hc⟩ := callee_of_takes htakes p
      rw [evalCall_of_callee hc] at h
      rcases result_bind_eq_error h with h | ⟨vs, t, -, h⟩
      · exact ⟨rfl, h⟩
      · have havoids : Avoids (· = .nestingTooDeep q l) (execute f name vs p) :=
          avoids_execute fun e he => by cases he
        exact absurd rfl (havoids t _ s' h)

mutual

/-- **A run that fails for a depth came to a node deeper than the limit**, and fails there. -/
theorem visit_of_tooDeep : ∀ (n : Node) {d l : Nat} {q : Place} {s s' : Session},
    (evalAt r limit d n).result s = (.error (.nestingTooDeep q l), s') →
    l = limit ∧ ∃ v ∈ visitsAt r limit d n s, limit < v.level ∧ v.node.place = q
  | .literal v p, d, l, q, s, s', h => by
      by_cases hd : limit < d
      · rw [evalAt_of_lt hd] at h
        cases h
        exact ⟨rfl, _, List.mem_singleton.2 rfl, hd, rfl⟩
      · rw [evalAt_literal (Nat.not_lt.1 hd)] at h
        cases h
  | .call name p args memo, d, l, q, s, s', h => by
      by_cases hd : limit < d
      · rw [evalAt_of_lt hd] at h
        cases h
        exact ⟨rfl, _, List.mem_cons_self, hd, rfl⟩
      obtain ⟨hkeeps, hcall⟩ := (evalAt_call_eq_error (Nat.not_lt.1 hd)).1 h
      obtain ⟨htakes, hargs⟩ := evalAllAt_of_evalCall_tooDeep hcall
      obtain ⟨hl, v, hv, hlevel, hplace⟩ := visit_of_tooDeep_all args hargs
      refine ⟨hl, v, ?_, hlevel, hplace⟩
      rw [visitsAt, hkeeps, htakes, decide_eq_false hd]
      exact List.mem_cons_of_mem _ hv

theorem visit_of_tooDeep_all : ∀ (ns : List Node) {d l : Nat} {q : Place} {s s' : Session},
    (evalAllAt r limit d ns).result s = (.error (.nestingTooDeep q l), s') →
    l = limit ∧ ∃ v ∈ visitsAllAt r limit d ns s, limit < v.level ∧ v.node.place = q
  | [], _, _, _, _, _, h => by cases h
  | n :: ns, d, l, q, s, s', h => by
      rw [visitsAllAt]
      rcases result_bind_eq_error h with h | ⟨u, t, hn, h⟩
      · obtain ⟨hl, v, hv, hlevel, hplace⟩ := visit_of_tooDeep n h
        exact ⟨hl, v, List.mem_append_left _ hv, hlevel, hplace⟩
      · rcases result_bind_eq_error h with h | ⟨us, t', -, h⟩
        · obtain ⟨hl, v, hv, hlevel, hplace⟩ := visit_of_tooDeep_all ns h
          refine ⟨hl, v, List.mem_append_right _ ?_, hlevel, hplace⟩
          rw [hn]
          exact hv
        · cases h

end

/-- **A program fails for its depth exactly where it comes to a node deeper than the limit.** -/
theorem eval_tooDeep_iff {p : Program} {q : Place} {s : Session} :
    ((eval r limit p).result s).1 = .error (.nestingTooDeep q limit) ↔
      ∃ v ∈ visitsAllAt r limit 1 p s, limit < v.level ∧ v.node.place = q := by
  rw [eval, evalFrom_eq]
  constructor
  · intro h
    rcases hall : (evalAllAt r limit 1 p).result s with ⟨e | vs, s'⟩
    · rw [result_bind_of_error hall] at h
      cases h
      exact (visit_of_tooDeep_all p hall).2
    · rw [result_bind_of_ok hall] at h
      cases h
  · rintro ⟨v, hv, hlevel, rfl⟩
    obtain ⟨s', hs'⟩ := result_of_visitsAllAt p hv hlevel
    rw [result_bind_of_error hs']

end Evaluator

end CallScript
