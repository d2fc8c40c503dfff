import CallScript.Proofs.Run.History

/-!
# Accounting for kept results

Where every memo key is the key of its call (`Node.CarriesOwnKey`), nothing happens with kept results
that must not: each event of an evaluation is permitted by what is kept when it happens
(`Event.Permitted`). From this alone follows what a host can rely on (`Memo.Accounts`).

* `legal_evalAllAt`: the events of an evaluation are permitted, one after the other;
* `Legal.accounts`: there are never more results than the limit, each is what carrying out the call of
  its key gave, calls that fail add none, and what is kept is not carried out again until all results
  are forgotten.
-/

namespace CallScript

open Evaluator (memoCapacity makeRoom)

/-- The call that a memo key stands for. -/
def MemoKey.call (key : MemoKey) : Execution := ⟨key.name, key.args.map Literal.toValue⟩

/-- Carrying out the call at the place, in the world that it finds, gives the outcome. -/
def Execution.Gives (r : Registry) (call : Execution) (place : Place) (before : World)
    (outcome : Except Exception Value) : Prop :=
  ∃ f, r.get? call.name = some f ∧ f.arity.accepts call.args.length = true ∧
    (f.execute call.args place (before.note call.name call.args)).1 = outcome

namespace Memo

variable {r : Registry} {memo : Memo} {key : MemoKey} {v : Value}

/-! ## 1. Permitted events -/

/-- What may happen when these results are kept. -/
inductive Event.Permitted (r : Registry) (memo : Memo) : Event → Prop
  /-- Only what is kept is found. -/
  | found {key : MemoKey} {v : Value} (kept : memo[key]? = some v) : Permitted r memo (.found key v)
  /-- Results are forgotten only when there are as many as the limit. -/
  | overflowed (full : memoCapacity ≤ memo.size) : Permitted r memo .overflowed
  | forgotten : Permitted r memo .forgotten
  /-- A call without a memo key may be carried out at any time. -/
  | unkeyed {call : Execution} {place : Place} {before : World} {outcome : Except Exception Value}
      (gives : call.Gives r place before outcome) :
      Permitted r memo (.carriedOut none call place before outcome)
  /-- A call with a memo key is the call of the key, no result of it is kept, and there is room for
      one. -/
  | keyed {key : MemoKey} {place : Place} {before : World} {outcome : Except Exception Value}
      (gives : key.call.Gives r place before outcome) (absent : memo[key]? = none)
      (room : memo.size < memoCapacity) :
      Permitted r memo (.carriedOut (some key) key.call place before outcome)

/-- The events are permitted, one after the other. -/
def Legal (r : Registry) : Memo → List Event → Prop
  | _, [] => True
  | memo, e :: events => e.Permitted r memo ∧ Legal r (memo.apply e) events

/-- All results are forgotten. -/
def Event.isReset : Event → Bool
  | .overflowed => true
  | .forgotten => true
  | _ => false

theorem legal_singleton {e : Event} (h : e.Permitted r memo) : Legal r memo [e] := ⟨h, trivial⟩

theorem legal_append {events later : List Event} :
    Legal r memo (events ++ later) ↔
      Legal r memo events ∧ Legal r (memo.replay events) later := by
  induction events generalizing memo with
  | nil => exact ⟨fun h => ⟨trivial, h⟩, And.right⟩
  | cons e events ih =>
      rw [replay_cons]
      exact (and_congr_right fun _ => ih).trans (and_assoc).symm

/-- Of permitted events, the first ones are. -/
theorem Legal.of_isPrefix {past events : List Event} (h : Legal r memo events)
    (hpast : past <+: events) : Legal r memo past := by
  obtain ⟨later, rfl⟩ := hpast
  exact (legal_append.1 h).1

/-- An event is permitted by what is kept when it happens. -/
theorem Legal.permitted {past events : List Event} {e : Event} (h : Legal r memo events)
    (hpast : past ++ [e] <+: events) : e.Permitted r (memo.replay past) :=
  (legal_append.1 (h.of_isPrefix hpast)).2.1

/-! ## 2. The limit -/

theorem size_empty_le : (∅ : Memo).size ≤ memoCapacity := by
  rw [Std.HashMap.size_empty]
  exact Nat.zero_le _

theorem size_apply_le {e : Event} (h : e.Permitted r memo) (hsize : memo.size ≤ memoCapacity) :
    (memo.apply e).size ≤ memoCapacity := by
  cases h with
  | found => exact hsize
  | overflowed => exact size_empty_le
  | forgotten => exact size_empty_le
  | unkeyed => exact hsize
  | @keyed key place before outcome gives absent room =>
      cases outcome with
      | error e => exact hsize
      | ok v => exact Nat.le_trans Std.HashMap.size_insert_le room

/-- **There are never more results than the limit.** -/
theorem Legal.size_replay_le {events : List Event} (h : Legal r memo events)
    (hsize : memo.size ≤ memoCapacity) : (memo.replay events).size ≤ memoCapacity := by
  induction events generalizing memo with
  | nil => exact hsize
  | cons e events ih => exact ih h.2 (size_apply_le h.1 hsize)

/-! ## 3. Where results come from -/

/-- A result that is kept after an event was kept before it, or it is what the event gave. -/
theorem getElem?_apply {e : Event} (h : (memo.apply e)[key]? = some v) :
    (memo[key]? = some v ∧ e.isReset = false) ∨
      ∃ call place before, e = .carriedOut (some key) call place before (.ok v) := by
  have hempty : (∅ : Memo)[key]? ≠ some v := by
    rw [Std.HashMap.getElem?_empty]
    exact nofun
  match e with
  | .found _ _ => exact Or.inl ⟨h, rfl⟩
  | .overflowed => exact absurd h hempty
  | .forgotten => exact absurd h hempty
  | .carriedOut none _ _ _ _ => exact Or.inl ⟨h, rfl⟩
  | .carriedOut (some key') _ _ _ (.error _) => exact Or.inl ⟨h, rfl⟩
  | .carriedOut (some key') call place before (.ok v') =>
      have h : (memo.insert key' v')[key]? = some v := h
      rw [Std.HashMap.getElem?_insert] at h
      by_cases hkey : (key' == key) = true
      · rw [if_pos hkey] at h
        cases h
        obtain rfl : key' = key := by simpa using hkey
        exact Or.inr ⟨call, place, before, rfl⟩
      · rw [if_neg hkey] at h
        exact Or.inl ⟨h, rfl⟩

/-- **A result that is kept in the end** was kept from the beginning, or a call of its key gave it;
    and nothing was forgotten since. -/
theorem getElem?_replay {events : List Event} (h : (memo.replay events)[key]? = some v) :
    (memo[key]? = some v ∧ ∀ e ∈ events, e.isReset = false) ∨
      ∃ earlier call place before later,
        events = earlier ++ .carriedOut (some key) call place before (.ok v) :: later ∧
          ∀ e ∈ later, e.isReset = false := by
  induction events generalizing memo with
  | nil => exact Or.inl ⟨h, fun e he => absurd he List.not_mem_nil⟩
  | cons e events ih =>
      rcases ih h with ⟨hkept, hnone⟩ | ⟨earlier, call, place, before, later, rfl, hnone⟩
      · rcases getElem?_apply hkept with ⟨hkept, hreset⟩ | ⟨call, place, before, rfl⟩
        · exact Or.inl ⟨hkept, List.forall_mem_cons.2 ⟨hreset, hnone⟩⟩
        · exact Or.inr ⟨[], call, place, before, events, rfl, hnone⟩
      · exact Or.inr ⟨e :: earlier, call, place, before, later, rfl, hnone⟩

/-- **A result stays kept, and the same, until all are forgotten.** -/
theorem Legal.stays_kept {events : List Event} (h : Legal r memo events)
    (hnone : ∀ e ∈ events, e.isReset = false) (hkept : memo[key]? = some v) :
    (memo.replay events)[key]? = some v := by
  induction events generalizing memo with
  | nil => exact hkept
  | cons e events ih =>
      obtain ⟨hreset, hnone⟩ := List.forall_mem_cons.1 hnone
      refine ih h.2 hnone ?_
      have hstep := h.1
      cases hstep with
      | found => exact hkept
      | overflowed => cases hreset
      | forgotten => cases hreset
      | unkeyed => exact hkept
      | @keyed key' place before outcome gives absent room =>
          cases outcome with
          | error e => exact hkept
          | ok v' =>
              -- a result is put in only for a key that has none
              have hne : key' ≠ key := by
                rintro rfl
                cases absent.symm.trans hkept
              show (memo.insert key' v')[key]? = some v
              rw [Std.HashMap.getElem?_insert, if_neg (by simpa using hne)]
              exact hkept

end Memo

namespace Evaluator

open Run Node Memo

variable {r : Registry} {limit : Nat}

/-! ## 4. Calls with their own keys -/

/-- Literals have no events. -/
theorem eventsAllAt_literals {ns : List Node} {ls : List Literal} (h : literals? ns = some ls)
    (d : Nat) (s : Session) : eventsAllAt r limit d ns s = [] := by
  induction ns generalizing ls s with
  | nil => rfl
  | cons n ns ih =>
      obtain ⟨l, q, ls', rfl, hls', rfl⟩ := literals?_cons_eq_some h
      rw [eventsAllAt, eventsAt, List.nil_append]
      rcases (evalAt r limit d (.literal l q)).result s with ⟨e | v, t⟩
      · rfl
      · exact ih hls' t

/-- Literals that have values have their own, and they leave the session as it is. -/
theorem values_of_literals {ns : List Node} {ls : List Literal} (h : literals? ns = some ls)
    {d : Nat} {s t : Session} {vs : List Value}
    (hvalues : (evalAllAt r limit d ns).result s = (.ok vs, t)) :
    vs = ls.map Literal.toValue ∧ t = s := by
  have hd : ns ≠ [] → d ≤ limit := by
    intro hne
    cases ns with
    | nil => exact absurd rfl hne
    | cons n ns =>
        by_cases hlt : limit < d
        · have hfails : (evalAt r limit d n).result s =
              (.error (.nestingTooDeep n.place limit), s) := by
            rw [evalAt_of_lt hlt]
            rfl
          rw [evalAllAt, result_bind_of_error hfails] at hvalues
          cases hvalues
        · exact Nat.not_lt.1 hlt
  rw [evalAllAt_literals h hd] at hvalues
  cases hvalues
  exact ⟨rfl, rfl⟩

/-- There are as many values as expressions. -/
theorem length_values {ns : List Node} {d : Nat} {s t : Session} {vs : List Value}
    (h : (evalAllAt r limit d ns).result s = (.ok vs, t)) : vs.length = ns.length := by
  induction ns generalizing s vs with
  | nil =>
      cases h
      rfl
  | cons n ns ih =>
      rw [evalAllAt] at h
      obtain ⟨v, s', -, h⟩ := result_bind_eq_ok h
      obtain ⟨vs', s'', hrest, h⟩ := result_bind_eq_ok h
      cases h
      exact congrArg (· + 1) (ih hrest)

theorem kept?_eq_some {s : Session} {memo : Option MemoKey} {key : MemoKey} {v : Value}
    (h : s.kept? memo = some (key, v)) : memo = some key ∧ s.memo[key]? = some v := by
  obtain ⟨key', rfl, h⟩ := Option.bind_eq_some_iff.1 h
  obtain ⟨v', hv, heq⟩ := Option.map_eq_some_iff.1 h
  cases heq
  exact ⟨rfl, hv⟩

theorem kept?_eq_none {s : Session} {key : MemoKey} (h : s.kept? (some key) = none) :
    s.memo[key]? = none := Option.map_eq_none_iff.1 h

theorem size_makeRoom_lt (memo : Memo) : (makeRoom memo).size < memoCapacity := by
  unfold makeRoom
  split
  · rw [Std.HashMap.size_empty]
    decide
  · next hroom => exact Nat.not_le.1 hroom

theorem getElem?_makeRoom {memo : Memo} {key : MemoKey} {v : Value}
    (h : (makeRoom memo)[key]? = some v) : memo[key]? = some v := by
  unfold makeRoom at h
  split at h
  · rw [Std.HashMap.getElem?_empty] at h
    cases h
  · exact h

theorem legal_overflow (s : Session) (memo : Option MemoKey) :
    Legal r s.memo (s.overflow memo) := by
  unfold Session.overflow
  split
  · next hfull => exact legal_singleton (.overflowed hfull.2)
  · trivial

/-- **Carrying out a call is permitted**, with a memo key only if the key is that of the call. -/
theorem permitted_carriedOut {name : String} {p : Place} {args : List Node} {memo : Option MemoKey}
    {d : Nat} {s t : Session} {f : Function} {vs : List Value}
    (hown : (Node.call name p args memo).CarriesOwnKey) (hs : s.kept? memo = none)
    (hf : r.get? name = some f) (ha : f.arity.accepts args.length = true)
    (hargs : (evalAllAt r limit d args).result (s.enter memo) = (.ok vs, t)) :
    Event.Permitted r t.memo
      (.carriedOut memo ⟨name, vs⟩ p t.world (f.execute vs p (t.world.note name vs)).1) := by
  have hgives : Execution.Gives r ⟨name, vs⟩ p t.world
      (f.execute vs p (t.world.note name vs)).1 := ⟨f, hf, length_values hargs ▸ ha, rfl⟩
  cases memo with
  | none => exact .unkeyed hgives
  | some key =>
      obtain ⟨ls, hls, rfl⟩ := memoKey?_call_eq_some (hown _ rfl)
      obtain ⟨rfl, rfl⟩ := values_of_literals hls hargs
      refine @Event.Permitted.keyed r _ ⟨name, ls⟩ _ _ _ hgives ?_ (size_makeRoom_lt s.memo)
      cases hkept : (makeRoom s.memo)[(⟨name, ls⟩ : MemoKey)]? with
      | none => exact hkept
      | some v => cases (kept?_eq_none hs).symm.trans (getElem?_makeRoom hkept)

theorem chained_legal : Chained r limit (fun _ => CarriesOwnKey)
    fun events s t => Legal r s.memo events ∧ t.memo = s.memo.replay events where
  nothing s := ⟨trivial, rfl⟩
  append h hlater := by
    refine ⟨legal_append.2 ⟨h.1, ?_⟩, (@chained_memo r limit).append h.2 hlater.2⟩
    rw [← h.2]
    exact hlater.1
  found hs := ⟨legal_singleton (.found (kept?_eq_some hs).2), rfl⟩
  entered s memo := ⟨legal_overflow s memo, s.memo_enter memo⟩
  carriedOut hown hs hf ha hargs :=
    ⟨legal_singleton (permitted_carriedOut hown hs hf ha hargs), memo_keep _ _ _ _ _ _⟩

/-- **The events of an evaluation are permitted**, one after the other, if all memo keys are those of
    their calls. -/
theorem legal_evalAllAt {ns : List Node} {d : Nat} (h : EveryIn (fun _ => CarriesOwnKey) d ns)
    (s : Session) : Legal r s.memo (eventsAllAt r limit d ns s) :=
  (chained_evalAllAt chained_legal ns s h).1

/-- **A call with a memo key of its own that fails keeps nothing**: at most, what was kept is
    forgotten. -/
theorem memo_of_error {n : Node} (hown : n.CarriesOwnKey) (hkeyed : n.memo? ≠ none) {d : Nat}
    {s s' : Session} {e : RuntimeError} (h : (evalAt r limit d n).result s = (.error e, s')) :
    s'.memo = s.memo ∨ s'.memo = makeRoom s.memo := by
  cases n with
  | literal l p => exact absurd rfl hkeyed
  | call name p args memo =>
      cases memo with
      | none => exact absurd rfl hkeyed
      | some key =>
          obtain ⟨ls, hls, rfl⟩ := memoKey?_call_eq_some (hown _ rfl)
          have hrun := callRun r limit d name p args (some ⟨name, ls⟩) s
          rw [h] at hrun
          generalize eventsAt r limit d (.call name p args (some ⟨name, ls⟩)) s = events at hrun
          generalize hx : (Except.error e, s') = x at hrun
          cases hrun with
          | tooDeep =>
              cases hx
              exact Or.inl rfl
          | found => cases hx
          | refused =>
              cases hx
              exact Or.inr rfl
          | stopped hs hstopped =>
              cases hx
              have hmemo := @memo_evalAllAt r limit args (d + 1) (s.enter (some ⟨name, ls⟩))
              rw [hstopped, eventsAllAt_literals hls] at hmemo
              exact Or.inr hmemo
          | @carriedOut f vs t hs hf ha hvalues =>
              obtain ⟨rfl, rfl⟩ := values_of_literals hls hvalues
              rcases hout : (f.execute (ls.map Literal.toValue) p _).1 with e' | v
              · rw [hout] at hx
                cases hx
                exact Or.inr rfl
              · rw [hout] at hx
                cases hx

/-- A call whose result is kept is answered by it: nothing is carried out, and nothing changes. -/
theorem result_of_kept {n : Node} {key : MemoKey} (hkey : n.memo? = some key) {d : Nat}
    (hd : d ≤ limit) {s : Session} {v : Value} (h : s.memo[key]? = some v) :
    (evalAt r limit d n).result s = (.ok v, s) := by
  cases n with
  | literal l p => cases hkey
  | call name p args memo =>
      obtain rfl : memo = some key := hkey
      rw [evalAt_call_some hd, result_remember, h]

end Evaluator

/-! ## 5. What a host can rely on -/

namespace Memo

/-- **The account of kept results**: how what is kept now goes back to what happened. Whatever is said of
    a past holds at every moment, between the events, too. -/
structure Accounts (r : Registry) (history : List Event) (memo : Memo) : Prop where
  /-- What is kept is what the events leave. -/
  table : memo = replay ∅ history
  /-- There are never more results than the limit. -/
  bounded : ∀ past, past <+: history → (replay ∅ past).size ≤ memoCapacity
  /-- Each result is what carrying out the call of its key gave. -/
  returned : ∀ past key v, past <+: history → (replay ∅ past)[key]? = some v →
    ∃ earlier place before later,
      past = earlier ++ .carriedOut (some key) key.call place before (.ok v) :: later ∧
        key.call.Gives r place before (.ok v)
  /-- A call with a memo key that fails adds no result. -/
  failed : ∀ past, past <+: history → ∀ (limit d : Nat) (n : Node) (w : World) (e : RuntimeError)
    (s' : Session), n.CarriesOwnKey → n.memo? ≠ none →
    (Evaluator.evalAt r limit d n).result ⟨replay ∅ past, w⟩ = (.error e, s') →
    ∀ (key : MemoKey) (v : Value), s'.memo[key]? = some v → (replay ∅ past)[key]? = some v
  /-- Where the result of a call is kept, the call changes nothing, in the world either. -/
  answered : ∀ past, past <+: history → ∀ (limit d : Nat) (n : Node) (key : MemoKey) (v : Value)
    (w : World), d ≤ limit → n.memo? = some key → (replay ∅ past)[key]? = some v →
    (Evaluator.evalAt r limit d n).result ⟨replay ∅ past, w⟩ = (.ok v, ⟨replay ∅ past, w⟩)
  /-- Once its result is kept, a call is not carried out for its key before all are forgotten. -/
  once : ∀ past between key v place before call outcome, (replay ∅ past)[key]? = some v →
    past ++ between ++ [.carriedOut (some key) call place before outcome] <+: history →
    ∃ e ∈ between, e.isReset = true
  /-- Unless the host wants it, results are forgotten only when there are as many as the limit. -/
  overflowed : ∀ past, past ++ [.overflowed] <+: history → (replay ∅ past).size = memoCapacity

section

variable {r : Registry} {history : List Event}

/-- A result that is kept was given by its call. -/
theorem Legal.returned (h : Legal r ∅ history) {key : MemoKey} {v : Value}
    (hkept : (replay ∅ history)[key]? = some v) :
    ∃ earlier place before later,
      history = earlier ++ .carriedOut (some key) key.call place before (.ok v) :: later ∧
        key.call.Gives r place before (.ok v) := by
  rcases getElem?_replay hkept with ⟨hempty, -⟩ | ⟨earlier, call, place, before, later, rfl, -⟩
  · rw [Std.HashMap.getElem?_empty] at hempty
    cases hempty
  · have hpermitted := (legal_append.1 h).2.1
    cases hpermitted with
    | keyed gives => exact ⟨earlier, place, before, later, rfl, gives⟩

/-- What is kept is not carried out until it is forgotten. -/
theorem Legal.reset_of_carriedOut {past between : List Event} {key : MemoKey} {v : Value}
    {call : Execution} {place : Place} {before : World} {outcome : Except Exception Value}
    (h : Legal r ∅ (past ++ between ++ [.carriedOut (some key) call place before outcome]))
    (hkept : (replay ∅ past)[key]? = some v) : ∃ e ∈ between, e.isReset = true := by
  by_cases hreset : ∃ e ∈ between, e.isReset = true
  · exact hreset
  · -- it would be kept still, and the call would not be permitted
    have hnone : ∀ e ∈ between, e.isReset = false := by
      intro e he
      exact Bool.eq_false_iff.2 fun h => hreset ⟨e, he, h⟩
    obtain ⟨hpast, hlast⟩ := legal_append.1 h
    have hstill := (legal_append.1 hpast).2.stays_kept hnone hkept
    rw [← replay_append] at hstill
    cases hlast.1 with
    | keyed _ absent => cases absent.symm.trans hstill

/-- **What events that are permitted come to.** -/
theorem Legal.accounts (h : Legal r ∅ history) : Accounts r history (replay ∅ history) where
  table := rfl
  bounded past hpast := (h.of_isPrefix hpast).size_replay_le size_empty_le
  returned past key v hpast hkept := (h.of_isPrefix hpast).returned hkept
  failed past _ limit d n w e s' hown hkeyed hfails key v hkept := by
    rcases Evaluator.memo_of_error hown hkeyed hfails with hsame | hroom
    · rwa [hsame] at hkept
    · rw [hroom] at hkept
      exact Evaluator.getElem?_makeRoom hkept
  answered past _ limit d n key v w hd hkey hkept := Evaluator.result_of_kept hkey hd hkept
  once past between key v place before call outcome hkept hlater :=
    (h.of_isPrefix hlater).reset_of_carriedOut hkept
  overflowed past hpast := by
    have hbound := (legal_append.1 (h.of_isPrefix hpast)).1.size_replay_le size_empty_le
    cases h.permitted hpast with
    | overflowed full => exact Nat.le_antisymm hbound full

end

end Memo

end CallScript
