import CallScript.Proofs.Run.Visits

/-!
# The history of kept results

A run uses kept results, forgets them when there are too many, and carries out calls, whose results are
kept if they have a memo key. Each of these is an event (`Memo.Event`), and an evaluation has a list of
them (`eventsAllAt`), up to its first failure.

* `chained_evalAllAt`: what holds of everything that can happen, and of one thing after the other, holds
  of an evaluation;
* `memo_evalAllAt`: what is kept after an evaluation is what its events leave of what was kept before;
* `trace_evalAllAt`: the calls among the events are all the calls that were carried out.

The host may have results forgotten between runs; this is an event, too.
-/

namespace CallScript

/-! ## 1. Events -/

/-- What happens with kept results. -/
inductive Memo.Event
  /-- A result that is kept is used, and its call is not carried out. -/
  | found (key : MemoKey) (v : Value)
  /-- There are too many results for another one, and all are forgotten. -/
  | overflowed
  /-- All results are forgotten because the host wants it. -/
  | forgotten
  /-- A function is carried out for a call, in the world that it finds. The result is kept if the
      call has a memo key. -/
  | carriedOut (memo : Option MemoKey) (call : Execution) (place : Place) (before : World)
      (outcome : Except Exception Value)

namespace Memo

/-- What is kept after an event. -/
def apply (memo : Memo) : Event → Memo
  | .found _ _ => memo
  | .overflowed => ∅
  | .forgotten => ∅
  | .carriedOut (some key) _ _ _ (.ok v) => memo.insert key v
  | .carriedOut _ _ _ _ _ => memo

/-- What is kept after events, one after the other. -/
def replay (memo : Memo) (events : List Event) : Memo := events.foldl apply memo

variable {memo : Memo}

@[simp] theorem replay_nil : memo.replay [] = memo := rfl

@[simp] theorem replay_cons (e : Event) (events : List Event) :
    memo.replay (e :: events) = (memo.apply e).replay events := rfl

theorem replay_append (events later : List Event) :
    memo.replay (events ++ later) = (memo.replay events).replay later := List.foldl_append

/-- The call of an event, if one is carried out. -/
def Event.call? : Event → Option Execution
  | .carriedOut _ call _ _ _ => some call
  | _ => none

end Memo

/-- The result that is kept for the memo key of a call, with the key. -/
def Session.kept? (s : Session) (memo : Option MemoKey) : Option (MemoKey × Value) :=
  memo.bind fun key => s.memo[key]?.map (key, ·)

/-- Whether there is room for the result of a call with the memo key: if not, all are forgotten. -/
def Session.overflow (s : Session) (memo : Option MemoKey) : List Memo.Event :=
  if memo.isSome ∧ Evaluator.memoCapacity ≤ s.memo.size then [.overflowed] else []

/-- The result of a call is kept under its memo key. -/
def Session.keep (memo : Option MemoKey) (x : Except RuntimeError Value × Session) :
    Except RuntimeError Value × Session :=
  match memo, x with
  | some key, (.ok v, s) => (.ok v, { s with memo := s.memo.insert key v })
  | _, x => x

theorem Session.memo_enter (s : Session) (memo : Option MemoKey) :
    (s.enter memo).memo = s.memo.replay (s.overflow memo) := by
  cases memo with
  | none => rfl
  | some key =>
      show Evaluator.makeRoom s.memo = _
      unfold Evaluator.makeRoom overflow
      by_cases hfull : Evaluator.memoCapacity ≤ s.memo.size
      · rw [if_pos hfull, if_pos ⟨rfl, hfull⟩]
        rfl
      · rw [if_neg hfull, if_neg fun h => hfull h.2]
        rfl

theorem Session.world_enter (s : Session) (memo : Option MemoKey) :
    (s.enter memo).world = s.world := by
  cases memo with
  | none => rfl
  | some key => rfl

namespace Evaluator

open Run Node Memo

variable (r : Registry) (limit : Nat)

/-- The event of carrying out a call with arguments that have values. -/
def work (name : String) (p : Place) (memo : Option MemoKey) (vs : List Value) (s : Session) :
    List Event :=
  match r.get? name with
  | some f =>
    [.carriedOut memo ⟨name, vs⟩ p s.world (f.execute vs p (s.world.note name vs)).1]
  | none => []

mutual

/-- The events of evaluating an expression at a level. -/
def eventsAt (d : Nat) : Node → Session → List Event
  | .literal _ _, _ => []
  | .call name p args memo, s =>
    if limit < d then []
    else
      match s.kept? memo with
      | some (key, v) => [.found key v]
      | none =>
        s.overflow memo ++
          if r.takes name args.length then
            eventsAllAt (d + 1) args (s.enter memo) ++
              match (evalAllAt r limit (d + 1) args).result (s.enter memo) with
              | (.ok vs, t) => work r name p memo vs t
              | (.error _, _) => []
          else []

/-- The events of evaluating expressions, up to the first failure. -/
def eventsAllAt (d : Nat) : List Node → Session → List Event
  | [], _ => []
  | n :: ns, s =>
    eventsAt d n s ++
      match (evalAt r limit d n).result s with
      | (.ok _, s') => eventsAllAt d ns s'
      | (.error _, _) => []

end

variable {r limit} {d : Nat}

/-- An expression alone has the events that it has anywhere. -/
theorem eventsAllAt_singleton (n : Node) (s : Session) :
    eventsAllAt r limit d [n] s = eventsAt r limit d n s := by
  rw [eventsAllAt]
  rcases (evalAt r limit d n).result s with ⟨e | v, t⟩
  · exact List.append_nil _
  · exact List.append_nil _

/-! ## 2. What an evaluation comes to -/

theorem work_of_get? {f : Function} {name : String} (hf : r.get? name = some f) (p : Place)
    (memo : Option MemoKey) (vs : List Value) (s : Session) :
    work r name p memo vs s =
      [.carriedOut memo ⟨name, vs⟩ p s.world (f.execute vs p (s.world.note name vs)).1] := by
  unfold work
  rw [hf]

/-- **A call is answered by the result that is kept, or else it is carried out** and its result is kept,
    if it has a memo key. -/
theorem result_evalAt_call {name : String} {p : Place} {args : List Node} {memo : Option MemoKey}
    (hd : d ≤ limit) (s : Session) :
    (evalAt r limit d (.call name p args memo)).result s =
      match s.kept? memo with
      | some (_, v) => (.ok v, s)
      | none => Session.keep memo ((evalCall r limit d name p args).result (s.enter memo)) := by
  cases memo with
  | none =>
      rw [evalAt_call_none hd]
      rfl
  | some key =>
      rw [evalAt_call_some hd, result_remember]
      show _ = match s.memo[key]?.map (key, ·) with
        | some (_, v) => (Except.ok v, s)
        | none => _
      cases s.memo[key]? with
      | some v => rfl
      | none =>
          show (match (evalCall r limit d name p args).result (s.enter (some key)) with
            | (.ok v, s') => (Except.ok v, { s' with memo := s'.memo.insert key v })
            | (.error e, s') => (Except.error e, s')) = _
          rcases (evalCall r limit d name p args).result (s.enter (some key)) with ⟨e | v, t⟩
          · rfl
          · rfl

theorem keep_error (memo : Option MemoKey) (e : RuntimeError) (s : Session) :
    Session.keep memo (.error e, s) = (.error e, s) := by
  cases memo with
  | none => rfl
  | some key => rfl

/-- What can become of a call: its events, what it gives, and the session that it leaves. -/
inductive CallRun (r : Registry) (limit d : Nat) (name : String) (p : Place) (args : List Node)
    (memo : Option MemoKey) (s : Session) :
    List Event → Except RuntimeError Value × Session → Prop
  | tooDeep (hd : limit < d) :
      CallRun r limit d name p args memo s [] (.error (.nestingTooDeep p limit), s)
  | found {key : MemoKey} {v : Value} (hd : d ≤ limit) (hs : s.kept? memo = some (key, v)) :
      CallRun r limit d name p args memo s [.found key v] (.ok v, s)
  /-- There is no function that takes the arguments. -/
  | refused {e : RuntimeError} (hs : s.kept? memo = none) :
      CallRun r limit d name p args memo s (s.overflow memo) (.error e, s.enter memo)
  /-- An argument fails. -/
  | stopped {e : RuntimeError} {t : Session} (hs : s.kept? memo = none)
      (hargs : (evalAllAt r limit (d + 1) args).result (s.enter memo) = (.error e, t)) :
      CallRun r limit d name p args memo s
        (s.overflow memo ++ eventsAllAt r limit (d + 1) args (s.enter memo)) (.error e, t)
  | carriedOut {f : Function} {vs : List Value} {t : Session} (hs : s.kept? memo = none)
      (hf : r.get? name = some f) (ha : f.arity.accepts args.length = true)
      (hargs : (evalAllAt r limit (d + 1) args).result (s.enter memo) = (.ok vs, t)) :
      CallRun r limit d name p args memo s
        (s.overflow memo ++ (eventsAllAt r limit (d + 1) args (s.enter memo) ++
          [.carriedOut memo ⟨name, vs⟩ p t.world (f.execute vs p (t.world.note name vs)).1]))
        (Session.keep memo
          ((f.execute vs p (t.world.note name vs)).1.mapError RuntimeError.exception,
            { t with world := (f.execute vs p (t.world.note name vs)).2 }))

/-- **A call comes to one of these ends.** -/
theorem callRun (r : Registry) (limit d : Nat) (name : String) (p : Place) (args : List Node)
    (memo : Option MemoKey) (s : Session) :
    CallRun r limit d name p args memo s (eventsAt r limit d (.call name p args memo) s)
      ((evalAt r limit d (.call name p args memo)).result s) := by
  by_cases hd : limit < d
  · rw [evalAt_of_lt hd, eventsAt, if_pos hd]
    exact .tooDeep hd
  rw [result_evalAt_call (Nat.not_lt.1 hd), eventsAt, if_neg hd]
  cases hs : s.kept? memo with
  | some kept => exact .found (Nat.not_lt.1 hd) hs
  | none =>
      dsimp only
      cases htakes : r.takes name args.length with
      | false =>
          obtain ⟨e, hc⟩ := callee_of_not_takes htakes p
          rw [evalCall_of_refused hc, result_throw, keep_error, if_neg Bool.false_ne_true,
            List.append_nil]
          exact .refused hs
      | true =>
          obtain ⟨f, hf, hc⟩ := callee_of_takes htakes p
          have ha : f.arity.accepts args.length = true := by
            unfold Registry.takes at htakes
            rwa [hf] at htakes
          rw [if_pos rfl, evalCall_of_callee hc]
          rcases hargs : (evalAllAt r limit (d + 1) args).result (s.enter memo) with ⟨e | vs, t⟩
          · rw [result_bind_of_error hargs, keep_error, List.append_nil]
            exact .stopped hs hargs
          · rw [result_bind_of_ok hargs, result_execute]
            dsimp only
            rw [work_of_get? hf]
            exact .carriedOut hs hf ha hargs

/-! ## 3. One event after the other -/

/-- The relation of events and of the sessions before and behind them holds of everything that can
    happen, and of what happens one after the other. A call is carried out only if it has the
    property. -/
structure Chained (r : Registry) (limit : Nat) (Q : Nat → Node → Prop)
    (P : List Event → Session → Session → Prop) : Prop where
  nothing : ∀ s, P [] s s
  append : ∀ {events later s t u}, P events s t → P later t u → P (events ++ later) s u
  found : ∀ {s : Session} {memo key v}, s.kept? memo = some (key, v) → P [.found key v] s s
  entered : ∀ (s : Session) memo, P (s.overflow memo) s (s.enter memo)
  carriedOut : ∀ {d name p args memo t f vs} {s : Session}, Q d (.call name p args memo) →
    s.kept? memo = none → r.get? name = some f → f.arity.accepts args.length = true →
    (evalAllAt r limit (d + 1) args).result (s.enter memo) = (.ok vs, t) →
    P [.carriedOut memo ⟨name, vs⟩ p t.world (f.execute vs p (t.world.note name vs)).1] t
      (Session.keep memo
        ((f.execute vs p (t.world.note name vs)).1.mapError RuntimeError.exception,
          { t with world := (f.execute vs p (t.world.note name vs)).2 })).2

section

variable {Q : Nat → Node → Prop} {P : List Event → Session → Session → Prop}

mutual

/-- **What holds of everything that can happen holds of an evaluation.** The induction follows the
    evaluator: a call is one of the ends of `CallRun`, behind the events of its arguments. -/
theorem chained_evalAt (h : Chained r limit Q P) : ∀ (n : Node) {d : Nat} (s : Session),
    n.Every Q d → P (eventsAt r limit d n s) s ((evalAt r limit d n).result s).2
  | .literal v p, d, s, _ => by
      by_cases hd : limit < d
      · rw [evalAt_of_lt hd]
        exact h.nothing s
      · rw [evalAt_literal (Nat.not_lt.1 hd)]
        exact h.nothing s
  | .call name p args memo, d, s, hn => by
      have hargs := @chained_evalAllAt h args (d + 1) (s.enter memo) hn.2
      have hbefore := h.entered s memo
      have hrun := callRun r limit d name p args memo s
      generalize eventsAt r limit d (.call name p args memo) s = events at hrun ⊢
      generalize (evalAt r limit d (.call name p args memo)).result s = x at hrun ⊢
      cases hrun with
      | tooDeep => exact h.nothing s
      | found _ hs => exact h.found hs
      | refused => exact hbefore
      | stopped hs hstopped =>
          rw [hstopped] at hargs
          exact h.append hbefore hargs
      | carriedOut hs hf ha hvalues =>
          rw [hvalues] at hargs
          exact h.append hbefore (h.append hargs (h.carriedOut hn.1 hs hf ha hvalues))

theorem chained_evalAllAt (h : Chained r limit Q P) : ∀ (ns : List Node) {d : Nat} (s : Session),
    EveryIn Q d ns → P (eventsAllAt r limit d ns s) s ((evalAllAt r limit d ns).result s).2
  | [], _, s, _ => h.nothing s
  | n :: ns, d, s, hall => by
      have hfirst := @chained_evalAt h n d s hall.1
      rw [evalAllAt, eventsAllAt]
      rcases hn : (evalAt r limit d n).result s with ⟨e | v, t⟩
      · rw [hn] at hfirst
        rw [result_bind_of_error hn, List.append_nil]
        exact hfirst
      · rw [hn] at hfirst
        have hrest := @chained_evalAllAt h ns d t hall.2
        rw [result_bind_of_ok hn]
        refine h.append hfirst ?_
        rcases hns : (evalAllAt r limit d ns).result t with ⟨e | vs, u⟩
        · rw [hns] at hrest
          rw [result_bind_of_error hns]
          exact hrest
        · rw [hns] at hrest
          rw [result_bind_of_ok hns]
          exact hrest

end

end

/-! ## 4. What is kept -/

/-- Keeping the result of a call is what its event does. -/
theorem memo_keep (memo : Option MemoKey) (call : Execution) (p : Place) (before : World)
    (outcome : Except Exception Value) (t : Session) :
    (Session.keep memo (outcome.mapError RuntimeError.exception, t)).2.memo =
      t.memo.apply (.carriedOut memo call p before outcome) := by
  cases memo with
  | none => rfl
  | some key =>
      cases outcome with
      | error e => rfl
      | ok v => rfl

theorem chained_memo : Chained r limit (fun _ _ => True)
    fun events s t => t.memo = s.memo.replay events where
  nothing _ := rfl
  append h hlater := by rw [replay_append, ← h, hlater]
  found _ := rfl
  entered s memo := s.memo_enter memo
  carriedOut _ _ _ _ _ := memo_keep _ _ _ _ _ _

/-- **What is kept after an evaluation** is what its events leave. -/
theorem memo_evalAllAt (ns : List Node) (d : Nat) (s : Session) :
    ((evalAllAt r limit d ns).result s).2.memo = s.memo.replay (eventsAllAt r limit d ns s) :=
  chained_evalAllAt chained_memo ns s (EveryIn.of_forall fun _ _ => trivial)

/-- A program leaves the session that its statements leave. -/
theorem session_eval (p : Program) (s : Session) :
    ((eval r limit p).result s).2 = ((evalAllAt r limit 1 p).result s).2 := by
  rw [eval, evalFrom_eq]
  rcases hall : (evalAllAt r limit 1 p).result s with ⟨e | vs, t⟩
  · rw [result_bind_of_error hall]
  · rw [result_bind_of_ok hall]
    rfl

/-- What is kept after a program is what the events of its statements leave. -/
theorem memo_eval (p : Program) (s : Session) :
    ((eval r limit p).result s).2.memo = s.memo.replay (eventsAllAt r limit 1 p s) := by
  rw [session_eval]
  exact memo_evalAllAt p 1 s

/-! ## 5. What is carried out -/

/-- The functions leave it to the evaluator to note which calls were carried out. -/
def LeavesTrace (r : Registry) : Prop :=
  ∀ name f, r.get? name = some f → ∀ vs p w, (f.execute vs p w).2.executions = w.executions

theorem world_keep (memo : Option MemoKey) (x : Except RuntimeError Value × Session) :
    (Session.keep memo x).2.world = x.2.world := by
  rcases x with ⟨e | v, t⟩
  · rw [keep_error]
  · cases memo with
    | none => rfl
    | some key => rfl

/-- Forgetting results carries out no call. -/
theorem calls_overflow (s : Session) (memo : Option MemoKey) :
    (s.overflow memo).filterMap Event.call? = [] := by
  unfold Session.overflow
  split
  · rfl
  · rfl

theorem chained_trace (hr : LeavesTrace r) : Chained r limit (fun _ _ => True)
    fun events s t => t.world.trace = s.world.trace ++ events.filterMap Event.call? where
  nothing _ := (List.append_nil _).symm
  append h hlater := by rw [List.filterMap_append, ← List.append_assoc, ← h, hlater]
  found _ := (List.append_nil _).symm
  entered s memo := by rw [s.world_enter, calls_overflow, List.append_nil]
  carriedOut {_ name p _ _ t f vs _} _ _ hf _ _ := by
    rw [world_keep]
    show (f.execute vs p (t.world.note name vs)).2.trace = _
    unfold World.trace
    rw [hr name f hf]
    exact List.reverse_cons

/-- **The calls among the events of an evaluation are the calls that it carries out**, and no others
    are carried out. -/
theorem trace_evalAllAt (hr : LeavesTrace r) (ns : List Node) (d : Nat) (s : Session) :
    ((evalAllAt r limit d ns).result s).2.world.trace =
      s.world.trace ++ (eventsAllAt r limit d ns s).filterMap Event.call? :=
  chained_evalAllAt (chained_trace hr) ns s (EveryIn.of_forall fun _ _ => trivial)

/-- The calls that a program carries out are the calls among its events. -/
theorem trace_eval (hr : LeavesTrace r) (p : Program) (s : Session) :
    ((eval r limit p).result s).2.world.trace =
      s.world.trace ++ (eventsAllAt r limit 1 p s).filterMap Event.call? := by
  rw [session_eval]
  exact trace_evalAllAt hr p 1 s

/-! ## 6. What the host does -/

theorem chained_forgotten : Chained r limit (fun _ _ => True)
    fun events _ _ => Event.forgotten ∉ events where
  nothing _ := List.not_mem_nil
  append h hlater hmem := (List.mem_append.1 hmem).elim h hlater
  found _ hmem := nomatch List.mem_singleton.1 hmem
  entered s memo hmem := by
    unfold Session.overflow at hmem
    split at hmem
    · exact nomatch List.mem_singleton.1 hmem
    · exact List.not_mem_nil hmem
  carriedOut _ _ _ _ _ hmem := nomatch List.mem_singleton.1 hmem

/-- An evaluation does not forget results because the host wants it. -/
theorem forgotten_not_mem_eventsAllAt (ns : List Node) (d : Nat) (s : Session) :
    Event.forgotten ∉ eventsAllAt r limit d ns s :=
  chained_evalAllAt chained_forgotten ns s (EveryIn.of_forall fun _ _ => trivial)

end Evaluator

end CallScript
