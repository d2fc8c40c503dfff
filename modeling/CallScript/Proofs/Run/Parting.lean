import CallScript.Proofs.Node.Places
import CallScript.Proofs.Run.Visits

/-!
# Runs that part at the limit

A kept result is looked up before the arguments of its call are. So the levels of arguments count only
where no result is kept: a call at the limit whose result is kept has a value, and without the result
it fails for its arguments, which lie deeper than the limit.

This is all that the outcome of a run depends on besides the session's services
(`dependsOn_eval`): two runs of a program from sessions that are alike have the same outcome exactly
when they find the same at the calls at the limit (`finds`). Where they find something else, one of
them fails at a place that the other one has left behind, so their outcomes differ for good; that is
where it is used that no two nodes stand at the same place.
-/

namespace CallScript

/-! ## 1. Lists that part -/

/-- The lists are the same up to some point, where one has yes and the other has no. -/
def Diverge (xs ys : List Bool) : Prop :=
  ∃ before b x y, xs = before ++ b :: x ∧ ys = before ++ (!b) :: y

section

variable {xs ys : List Bool}

theorem Diverge.ne (h : Diverge xs ys) : xs ≠ ys := by
  obtain ⟨before, b, x, y, rfl, rfl⟩ := h
  intro heq
  have hb : b = !b := (List.cons.inj (List.append_cancel_left heq)).1
  cases b <;> cases hb

/-- Whatever follows, they have parted. -/
theorem Diverge.append (h : Diverge xs ys) (x y : List Bool) : Diverge (xs ++ x) (ys ++ y) := by
  obtain ⟨before, b, x', y', rfl, rfl⟩ := h
  exact ⟨before, b, x' ++ x, y' ++ y, by simp, by simp⟩

theorem Diverge.behind (h : Diverge xs ys) (before : List Bool) :
    Diverge (before ++ xs) (before ++ ys) := by
  obtain ⟨before', b, x, y, rfl, rfl⟩ := h
  exact ⟨before ++ before', b, x, y, by simp, by simp⟩

end

/-! ## 2. Runs that part -/

namespace Run

variable {α β : Type} {r : Registry} {limit : Nat} {ps qs : List Place}

/-- The outcomes differ, and one of them is a failure for the depth at one of the places. -/
def Parts (limit : Nat) (ps : List Place) (o o' : Except RuntimeError α) : Prop :=
  o ≠ o' ∧ ∃ q ∈ ps, o = .error (.nestingTooDeep q limit) ∨ o' = .error (.nestingTooDeep q limit)

/-- **The outcome depends on what is found**: from sessions that are alike, the runs find the same and
    come to the same outcome and to sessions that are alike, or else they part. -/
def DependsOn (r : Registry) (limit : Nat) (ps : List Place) (m : Run α)
    (find : Session → List Bool) : Prop :=
  ∀ sv a b s t, Session.Alike r sv a b s t →
    (find s = find t ∧ (result m s).1 = (result m t).1 ∧
      Session.Alike r sv a b (result m s).2 (result m t).2) ∨
    Diverge (find s) (find t) ∧ Parts limit ps (result m s).1 (result m t).1

namespace DependsOn

variable {m : Run α} {find : Session → List Bool}

/-- The outcomes are the same exactly when the same is found. -/
theorem iff (h : DependsOn r limit ps m find) {sv : Services} {a b : List String} {s t : Session}
    (hst : Session.Alike r sv a b s t) : (result m s).1 = (result m t).1 ↔ find s = find t := by
  rcases h sv a b s t hst with ⟨hfind, ho, -⟩ | ⟨hfind, ho, -⟩
  · exact ⟨fun _ => hfind, fun _ => ho⟩
  · exact ⟨fun heq => absurd heq ho, fun heq => absurd heq hfind.ne⟩

/-- A run leaves a session that keeps what is right. -/
theorem sound (h : DependsOn r limit ps m find) {s : Session} (hs : Memo.Sound r s.memo) :
    Memo.Sound r (result m s).2.memo := by
  rcases h _ _ _ s s (Session.Alike.self hs) with ⟨-, -, hst⟩ | ⟨-, ho, -⟩
  · exact hst.left
  · exact absurd rfl ho

/-- Runs that agree find nothing that counts. -/
theorem of_agrees (h : Agrees r m m) (ps : List Place) :
    DependsOn r limit ps m fun _ => [] := by
  intro sv a b s t hst
  obtain ⟨ho, hst'⟩ := h sv a b s t hst
  exact Or.inl ⟨rfl, ho, hst'⟩

theorem congr (h : DependsOn r limit ps m find) {find' : Session → List Bool}
    (heq : ∀ s, find' s = find s) : DependsOn r limit ps m find' := by
  rwa [show find' = find from funext heq]

theorem mono (h : DependsOn r limit ps m find) (hsubset : ps ⊆ qs) :
    DependsOn r limit qs m find := by
  intro sv a b s t hst
  rcases h sv a b s t hst with hsame | ⟨hfind, hne, q, hq, hfail⟩
  · exact Or.inl hsame
  · exact Or.inr ⟨hfind, hne, q, hsubset hq, hfail⟩

/-- Runs that have parted do not come together again, if what follows does not fail for the depth at
    the places of the first step. -/
theorem bind (hm : DependsOn r limit ps m find) {f : α → Run β} {rest : α → Session → List Bool}
    (hf : ∀ a, DependsOn r limit qs (f a) (rest a))
    (hskip : ∀ q ∈ ps, ∀ a, Avoids (· = .nestingTooDeep q limit) (f a)) :
    DependsOn r limit (ps ++ qs) (m >>= f) fun s => find s ++
      match result m s with
      | (.ok a, s') => rest a s'
      | (.error _, _) => [] := by
  -- where the first run fails at a place, the second does not fail there later
  have hlater : ∀ (t : Session) (o : Except RuntimeError α) (t' : Session) (q : Place), q ∈ ps →
      result m t = (o, t') → o ≠ .error (.nestingTooDeep q limit) →
      (result (m >>= f) t).1 ≠ .error (.nestingTooDeep q limit) := by
    intro t o t' q hq ht ho
    rcases o with e | a
    · rw [result_bind_of_error ht]
      exact fun he => ho (congrArg Except.error (Except.error.inj he))
    · rw [result_bind_of_ok ht]
      intro he
      exact hskip q hq a t' _ (result (f a) t').2 (Prod.ext he rfl) rfl
  intro sv a b s t hst
  rcases hs : result m s with ⟨o, s'⟩
  rcases ht : result m t with ⟨o', t'⟩
  rcases hm sv a b s t hst with ⟨hfind, ho, hst'⟩ | ⟨hfind, hne, q, hq, hfail⟩
  · rw [hs, ht] at ho hst'
    obtain rfl : o = o' := ho
    rcases o with e | a'
    · refine Or.inl ⟨?_, ?_⟩
      · dsimp only
        rw [hs, ht, hfind]
      · rw [result_bind_of_error hs, result_bind_of_error ht]
        exact ⟨rfl, hst'⟩
    · rw [result_bind_of_ok hs, result_bind_of_ok ht]
      dsimp only
      rw [hs, ht, hfind]
      rcases hf a' sv a b s' t' hst' with ⟨hrest, ho, hst''⟩ | ⟨hrest, hne, q, hq, hfail⟩
      · exact Or.inl ⟨congrArg (find t ++ ·) hrest, ho, hst''⟩
      · exact Or.inr ⟨hrest.behind _, hne, q, List.mem_append_right _ hq, hfail⟩
  · rw [hs, ht] at hne hfail
    refine Or.inr ⟨hfind.append _ _, ?_⟩
    rcases hfail with hfail | hfail
    · have hother := hlater t o' t' q hq ht fun h => hne (hfail.trans h.symm)
      obtain rfl : o = .error (.nestingTooDeep q limit) := hfail
      rw [result_bind_of_error hs]
      exact ⟨hother.symm, q, List.mem_append_left _ hq, Or.inl rfl⟩
    · have hother := hlater s o s' q hq hs fun h => hne (h.trans hfail.symm)
      obtain rfl : o' = .error (.nestingTooDeep q limit) := hfail
      rw [result_bind_of_error ht]
      exact ⟨hother, q, List.mem_append_left _ hq, Or.inr rfl⟩

/-- A step that finds nothing may follow. -/
theorem bind_agrees (hm : DependsOn r limit ps m find) {f : α → Run β}
    (hf : ∀ a, Agrees r (f a) (f a))
    (hskip : ∀ q ∈ ps, ∀ a, Avoids (· = .nestingTooDeep q limit) (f a)) :
    DependsOn r limit ps (m >>= f) find := by
  have hbind := hm.bind (fun a => of_agrees (hf a) []) hskip
  rw [List.append_nil] at hbind
  refine hbind.congr fun s => ?_
  rcases result m s with ⟨e | a, s'⟩
  · exact (List.append_nil _).symm
  · exact (List.append_nil _).symm

end DependsOn

end Run

namespace Evaluator

open Run Node

variable {r : Registry} {limit d : Nat}

/-! ## 3. Places that a run comes to -/

theorem place_mem_places (n : Node) : n.place ∈ n.places := by
  cases n with
  | literal v p => exact List.mem_singleton.2 rfl
  | call name p args memo => exact List.mem_cons_self

mutual

/-- A run stays within its expression. -/
theorem place_mem_of_mem_visitsAt : ∀ (n : Node) {d : Nat} {s : Session} {v : Visit},
    v ∈ visitsAt r limit d n s → v.node.place ∈ n.places
  | .literal l p, d, s, v, hv => by
      obtain rfl := List.mem_singleton.1 hv
      exact place_mem_places _
  | .call name p args memo, d, s, v, hv => by
      rw [visitsAt] at hv
      rcases List.mem_cons.1 hv with rfl | hv
      · exact place_mem_places _
      · split at hv
        · exact absurd hv List.not_mem_nil
        · exact List.mem_cons_of_mem _ (place_mem_of_mem_visitsAllAt args hv)

theorem place_mem_of_mem_visitsAllAt : ∀ (ns : List Node) {d : Nat} {s : Session} {v : Visit},
    v ∈ visitsAllAt r limit d ns s → v.node.place ∈ placesAll ns
  | [], _, _, _, hv => absurd hv List.not_mem_nil
  | n :: ns, d, s, v, hv => by
      rw [visitsAllAt] at hv
      rcases List.mem_append.1 hv with hv | hv
      · exact List.mem_append_left _ (place_mem_of_mem_visitsAt n hv)
      · refine List.mem_append_right _ ?_
        split at hv
        · exact place_mem_of_mem_visitsAllAt ns hv
        · exact absurd hv List.not_mem_nil

end

/-- Expressions that do not stand at a place do not fail there for the depth. -/
theorem avoids_evalAllAt_tooDeep {ns : List Node} {q : Place} (hq : q ∉ placesAll ns) :
    Avoids (· = .nestingTooDeep q limit) (evalAllAt r limit d ns) := by
  rintro s _ s' h rfl
  obtain ⟨-, v, hv, -, rfl⟩ := visit_of_tooDeep_all ns h
  exact hq (place_mem_of_mem_visitsAllAt ns hv)

/-! ## 4. What is found -/

theorem finds_append (vs ws : List Visit) :
    finds limit (vs ++ ws) = finds limit vs ++ finds limit ws := by
  unfold finds
  rw [List.filter_append, List.map_append]

/-- Literals find nothing. -/
theorem finds_literals {args : List Node} {ls : List Literal} (h : literals? args = some ls)
    (s : Session) : finds limit (visitsAllAt r limit d args s) = [] := by
  induction args generalizing ls s with
  | nil => rfl
  | cons n ns ih =>
      obtain ⟨l, q, ls, rfl, hls, rfl⟩ := literals?_cons_eq_some h
      rw [visitsAllAt, finds_append]
      have hone : finds limit (visitsAt r limit d (.literal l q) s) = [] := by
        simp [visitsAt, finds, Visit.isAtLimit, Node.memo?]
      rw [hone, List.nil_append]
      split
      · exact ih hls _
      · rfl

/-- A call with a memo key is looked for if it is at the limit and has arguments. -/
theorem finds_call_some {name : String} {p : Place} {args : List Node} {key : MemoKey}
    {ls : List Literal} (h : literals? args = some ls) (s : Session) :
    finds limit (visitsAt r limit d (.call name p args (some key)) s) =
      if d = limit ∧ args ≠ [] then [s.memo[key]?.isSome] else [] := by
  have htail : finds limit (if limit < d || s.keeps (some key) || !r.takes name args.length then []
      else visitsAllAt r limit (d + 1) args (s.enter (some key))) = [] := by
    split
    · rfl
    · exact finds_literals h _
  rw [visitsAt, ← List.singleton_append, finds_append, htail, List.append_nil]
  by_cases hd : d = limit ∧ args ≠ []
  · have hat : Visit.isAtLimit limit ⟨d, .call name p args (some key), s.keeps (some key)⟩ = true := by
      simp [Visit.isAtLimit, Node.memo?, Node.args, hd.1, hd.2]
    rw [if_pos hd, finds, List.filter_cons_of_pos hat]
    rfl
  · have hat : ¬ Visit.isAtLimit limit
        ⟨d, .call name p args (some key), s.keeps (some key)⟩ = true := by
      simpa [Visit.isAtLimit, Node.memo?, Node.args] using hd
    rw [if_neg hd, finds, List.filter_cons_of_neg hat]
    rfl

theorem finds_call_none (name : String) (p : Place) (args : List Node) (s : Session) :
    finds limit (visitsAt r limit d (.call name p args none) s) =
      if limit < d || !r.takes name args.length then []
      else finds limit (visitsAllAt r limit (d + 1) args s) := by
  have hat : ¬ Visit.isAtLimit limit ⟨d, .call name p args none, s.keeps none⟩ = true := by
    simp [Visit.isAtLimit, Node.memo?]
  rw [visitsAt, finds, List.filter_cons_of_neg hat]
  show finds limit (if limit < d || false || !r.takes name args.length then [] else _) = _
  rw [Bool.or_false]
  split
  · rfl
  · rfl

/-! ## 5. Trees -/

/-- A call with arguments beyond the limit fails, whatever is kept: it is refused, or its first argument
    is too deep. -/
theorem evalCall_at_limit {name : String} {p : Place} {args : List Node} (hne : args ≠ [])
    (hd : limit < d + 1) :
    ∃ e, evalCall r limit d name p args = throw e ∧
      (r.takes name args.length = true → ∃ q ∈ placesAll args, e = .nestingTooDeep q limit) := by
  cases htakes : r.takes name args.length with
  | false =>
      obtain ⟨e, hc⟩ := callee_of_not_takes htakes p
      exact ⟨e, evalCall_of_refused hc, nofun⟩
  | true =>
      obtain ⟨f, -, hc⟩ := callee_of_takes htakes p
      cases args with
      | nil => exact absurd rfl hne
      | cons n ns =>
          refine ⟨.nestingTooDeep n.place limit, ?_,
            fun _ => ⟨n.place, List.mem_append_left _ (place_mem_places n), rfl⟩⟩
          rw [evalCall_of_callee hc, evalAllAt, evalAt_of_lt hd]
          rfl

/-- What looking up a kept result gives, where computing it fails. -/
theorem result_remember_throw {key : MemoKey} {e : RuntimeError} (s : Session) :
    (remember key (throw e)).result s =
      match s.memo[key]? with
      | some v => (.ok v, s)
      | none => (.error e, { s with memo := makeRoom s.memo }) := by
  rw [result_remember]
  cases s.memo[key]? with
  | some v => rfl
  | none => rfl

/-- **A call at the limit whose result may be kept** has a value where it is kept, and fails for its
    arguments where it is not. -/
theorem dependsOn_remember {key : MemoKey} {e : RuntimeError} {ps : List Place}
    (h : ∀ v, key.Gives r v → ∃ q ∈ ps, e = .nestingTooDeep q limit) :
    DependsOn r limit ps (remember key (throw e)) fun s => [s.memo[key]?.isSome] := by
  intro sv a b s t hst
  rw [result_remember_throw, result_remember_throw]
  dsimp only
  cases hs : s.memo[key]? with
  | none =>
      cases ht : t.memo[key]? with
      | none => exact Or.inl ⟨rfl, rfl, hst.world, hst.left.makeRoom, hst.right.makeRoom⟩
      | some v =>
          obtain ⟨q, hq, rfl⟩ := h v (hst.right key v ht)
          exact Or.inr ⟨⟨[], false, [], [], rfl, rfl⟩, nofun, q, hq, Or.inl rfl⟩
  | some v =>
      cases ht : t.memo[key]? with
      | none =>
          obtain ⟨q, hq, rfl⟩ := h v (hst.left key v hs)
          exact Or.inr ⟨⟨[], true, [], [], rfl, rfl⟩, nofun, q, hq, Or.inr rfl⟩
      | some w =>
          -- both are what the call gives
          obtain ⟨f, hf, -, hv⟩ := hst.left key v hs
          obtain ⟨g, hg, -, hw⟩ := hst.right key w ht
          obtain rfl : f = g := Option.some.inj (hf.symm.trans hg)
          obtain rfl : v = w := by
            have heq := (hv default s.world).symm.trans (hw default s.world)
            exact Except.ok.inj (Prod.mk.inj heq).1
          exact Or.inl ⟨rfl, rfl, hst⟩

/-- A call with a memo key. -/
theorem dependsOn_call_some (hr : r.AllLawful) (hd : d ≤ limit) {name : String} {p : Place}
    {args : List Node} {key : MemoKey} (hkey : OwnKeyed r (.call name p args (some key))) :
    DependsOn r limit (p :: placesAll args) (evalAt r limit d (.call name p args (some key)))
      fun s => finds limit (visitsAt r limit d (.call name p args (some key)) s) := by
  obtain ⟨hk, hkept⟩ := hkey key rfl
  obtain ⟨ls, hls, rfl⟩ := memoKey?_call_eq_some hk
  by_cases hlast : d = limit ∧ args ≠ []
  · obtain ⟨e, he, htakes⟩ := @evalCall_at_limit r limit d name p args hlast.2 (by omega)
    rw [evalAt_call_some hd, he]
    have hdepends := @dependsOn_remember r limit ⟨name, ls⟩ e (p :: placesAll args) ?_
    · exact hdepends.congr fun s => (finds_call_some hls s).trans (if_pos hlast)
    · rintro v ⟨f, hf, ha, -⟩
      have htake : r.takes name args.length = true := by
        unfold Registry.takes
        rw [hf, ← length_literals? hls]
        exact ha
      obtain ⟨q, hq, rfl⟩ := htakes htake
      exact ⟨q, List.mem_cons_of_mem p hq, rfl⟩
  · have hlt : args ≠ [] → d < limit := fun hne => by
      have : d ≠ limit := fun hd => hlast ⟨hd, hne⟩
      omega
    have hkey : WellKeyed r limit d (.call name p args (some ⟨name, ls⟩)) := by
      intro key' hkey'
      cases hkey'
      exact ⟨hk, hkept, hlt⟩
    have hargs : Agrees r (evalAllAt r limit (d + 1) args) (evalAllAt r limit (d + 1) args) := by
      rw [evalAllAt_literals hls hlt]
      exact .pure _
    have hagrees := agrees_evalCall hr hd hkey hargs
    exact (DependsOn.of_agrees (hagrees.trans hagrees.symm) _).congr fun s =>
      (finds_call_some hls s).trans (if_neg hlast)

/-- A call without a memo key, whose arguments are evaluated each time. -/
theorem dependsOn_call_none (hr : r.AllLawful) (hd : d ≤ limit) {name : String} {p : Place}
    {args : List Node}
    (hargs : DependsOn r limit (placesAll args) (evalAllAt r limit (d + 1) args)
      fun s => finds limit (visitsAllAt r limit (d + 1) args s)) :
    DependsOn r limit (p :: placesAll args) (evalAt r limit d (.call name p args none))
      fun s => finds limit (visitsAt r limit d (.call name p args none) s) := by
  rw [evalAt_call_none hd]
  cases htakes : r.takes name args.length with
  | false =>
      obtain ⟨e, hc⟩ := callee_of_not_takes htakes p
      rw [evalCall_of_refused hc]
      refine (DependsOn.of_agrees (.throw e) _).congr fun s => ?_
      rw [finds_call_none, htakes]
      exact if_pos (Bool.or_true _)
  | true =>
      obtain ⟨f, hf, hc⟩ := callee_of_takes htakes p
      rw [evalCall_of_callee hc]
      have hagrees : ∀ vs, Agrees r (execute f name vs p) (execute f name vs p) :=
        fun vs => agrees_execute (hr name f hf).blind fun _ => rfl
      have hwork := hargs.bind_agrees hagrees
        fun q _ vs => avoids_execute fun e he => by cases he
      refine (hwork.mono fun q hq => List.mem_cons_of_mem p hq).congr fun s => ?_
      rw [finds_call_none, htakes, decide_eq_false (Nat.not_lt.2 hd)]
      rfl

/-- An expression that is too deep finds nothing. -/
theorem finds_of_lt (h : limit < d) (n : Node) (s : Session) :
    finds limit (visitsAt r limit d n s) = [] := by
  have hat : ∀ k, ¬ Visit.isAtLimit limit ⟨d, n, k⟩ = true := by
    intro k
    simp [Visit.isAtLimit, Nat.ne_of_gt h]
  cases n with
  | literal v p =>
      rw [visitsAt, finds, List.filter_cons_of_neg (hat _)]
      rfl
  | call name p args memo =>
      rw [visitsAt, finds, List.filter_cons_of_neg (hat _), decide_eq_true h]
      rfl

mutual

/-- **The outcome of an expression depends on what is found at the limit.** -/
theorem dependsOn_evalAt (hr : r.AllLawful) : ∀ (n : Node) {d : Nat},
    n.Every (fun _ => OwnKeyed r) d → n.places.Nodup →
    DependsOn r limit n.places (evalAt r limit d n)
      fun s => finds limit (visitsAt r limit d n s)
  | .literal v p, d, _, _ => by
      have hagrees : Agrees r (evalAt r limit d (.literal v p)) (evalAt r limit d (.literal v p)) := by
        by_cases hd : limit < d
        · rw [evalAt_of_lt hd]
          exact .throw _
        · rw [evalAt_literal (Nat.not_lt.1 hd)]
          exact .pure _
      refine (DependsOn.of_agrees hagrees _).congr fun s => ?_
      simp [visitsAt, finds, Visit.isAtLimit, Node.memo?]
  | .call name p args memo, d, ⟨hkey, hkeys⟩, hnodup => by
      by_cases hd : limit < d
      · have hagrees : Agrees r (evalAt r limit d (.call name p args memo))
            (evalAt r limit d (.call name p args memo)) := by
          rw [evalAt_of_lt hd]
          exact .throw _
        exact (DependsOn.of_agrees hagrees _).congr fun s => finds_of_lt hd _ s
      · cases memo with
        | some key => exact dependsOn_call_some hr (Nat.not_lt.1 hd) hkey
        | none =>
            exact dependsOn_call_none hr (Nat.not_lt.1 hd)
              (dependsOn_evalAllAt hr args hkeys (List.nodup_cons.1 hnodup).2)

theorem dependsOn_evalAllAt (hr : r.AllLawful) : ∀ (ns : List Node) {d : Nat},
    EveryIn (fun _ => OwnKeyed r) d ns → (placesAll ns).Nodup →
    DependsOn r limit (placesAll ns) (evalAllAt r limit d ns)
      fun s => finds limit (visitsAllAt r limit d ns s)
  | [], d, _, _ => .of_agrees (.pure []) []
  | n :: ns, d, ⟨hkey, hkeys⟩, hnodup => by
      obtain ⟨hn, hns, hdisjoint⟩ := List.nodup_append.1 hnodup
      have hfirst := dependsOn_evalAt hr n hkey hn
      have hrest := dependsOn_evalAllAt hr ns hkeys hns
      have hall := hfirst.bind
        (fun v => hrest.bind_agrees (fun vs => .pure (v :: vs)) fun _ _ _ => .pure _)
        fun q hq v =>
          (avoids_evalAllAt_tooDeep fun hmem => hdisjoint q hq q hmem rfl).bind fun _ => .pure _
      refine hall.congr fun s => ?_
      rw [visitsAllAt, finds_append]
      rcases (evalAt r limit d n).result s with ⟨e | v, s'⟩
      · rfl
      · rfl

end

/-- **The outcome of a program depends on what is found at the limit.** -/
theorem dependsOn_eval (hr : r.AllLawful) {p : Program}
    (hkeys : ∀ n ∈ p, n.Every (fun _ => OwnKeyed r) 1) (hplaces : DistinctPlaces p) :
    DependsOn r limit (placesAll p) (eval r limit p)
      fun s => finds limit (visitsAllAt r limit 1 p s) := by
  have hall : DependsOn r limit (placesAll p) (evalAllAt r limit 1 p) _ :=
    dependsOn_evalAllAt hr p (everyIn_iff.2 hkeys) hplaces
  rw [eval, evalFrom_eq]
  exact hall.bind_agrees (fun vs => .pure _) fun _ _ _ => .pure _

end Evaluator

end CallScript
