import CallScript.Proofs.Engine.Stored
import CallScript.Proofs.Optimizer.OwnKeys

/-!
# Passes of the optimizer, one after the other

A program may be optimized any number of times, each time with another registry and other options
(`Optimizer.Pass`). A key that a pass assigned stays on its node: later passes keep it, also if they
would not assign it, and a replacement may take a call with its key along, into another call and to
another place. What replaces a call has no keys but those of the arguments (`Registry.CopiesKeys`).
Whether a key stays with the call that it was assigned to is up to the functions that give the
replacements (`Registry.KeepsOwnKeys`).

* `preserved_assignable` is what one pass does to memo keys: a key that was not there before is that of
  a function that allows it;
* `stays_or_assignedBy` is the same for passes one after the other: a key was there all the time, or
  one of them assigned it;
* `apart_evalCall`: what is computed for a call with literal arguments has nothing to do with kept
  results;
* `assigned_of_runAll`: so where there were no keys at first, one of the passes assigned every key, and
  it is that of its call if replacements keep keys in order;
* `foreign_key_of_appending`: if they do not, a call may have the key of another one.
-/

namespace CallScript

namespace Optimizer

open Node (CarriesOwnKey partsAll keysAll mem_keysAll)

/-! ## 1. One pass -/

/-- A registry, options, and a budget of replacements for each statement. The budget is free, so that
    every run of the optimizer that ends is a pass. -/
structure Pass where
  registry : Registry
  options : Options
  budget : Node → Nat

/-- What the pass makes of a program. -/
def Pass.run (s : Pass) (p : Program) : Except CompileError Program :=
  optimizeBy s.registry s.options s.budget p

/-- The memo key may be assigned: results are kept, and the function under the name of the key allows
    it. -/
def Assignable (r : Registry) (o : Options) (key : MemoKey) : Prop :=
  o.keepResults = true ∧ ∃ f, r.get? key.name = some f ∧ f.allows .kept = true

theorem assignable_of_memoFor {r : Registry} {o : Options} {name : String} {f : Function}
    (hf : r.get? name = some f) {ls? : Option (List Literal)} {key : MemoKey}
    (h : memoFor o f name ls? none = some key) : Assignable r o key := by
  obtain ⟨hallow, ls, -, rfl⟩ := memoFor_none_eq_some h
  refine ⟨?_, f, hf, hallow⟩
  cases hkeep : o.keepResults with
  | true => rfl
  | false =>
      rw [memoFor, hkeep] at h
      cases h

/-- **A key that was not there before may be assigned**: this the optimizer keeps. -/
theorem preserved_assignable {r : Registry} (hr : r.CopiesKeys) (o : Options)
    (before : List MemoKey) : Preserved r o fun _ n =>
      ∀ key, n.memo? = some key → key ∈ before ∨ Assignable r o key where
  call {_ _ _ _ _ memo _} hf _ h _ := by
    intro key hkey
    cases memo with
    | none => exact Or.inr (assignable_of_memoFor hf hkey)
    | some key' => exact h key hkey
  replaced hf hw _ hn _ hall := by
    refine Node.every_iff_parts.2 fun m hm key hkey => ?_
    have hmem := mem_keysAll.2 ⟨m, (Node.partsAll_singleton _).symm ▸ hm, hkey⟩
    obtain ⟨a, ha, hakey⟩ := mem_keysAll.1 (hr _ _ hf hw _ _ _ hn hmem)
    exact Node.everyIn_iff_parts.1 hall a ha key hakey

namespace Pass

variable {s : Pass} {p q : Program}

/-- A key that is there after the pass was there before it, or may be assigned in it. -/
theorem mem_keysAll_run (hs : s.registry.CopiesKeys) (h : s.run p = .ok q) {key : MemoKey}
    (hkey : key ∈ keysAll q) : key ∈ keysAll p ∨ Assignable s.registry s.options key := by
  have hbefore : ∀ m ∈ partsAll p, ∀ key, m.memo? = some key →
      key ∈ keysAll p ∨ Assignable s.registry s.options key :=
    fun m hm key hkey => Or.inl (mem_keysAll.2 ⟨m, hm, hkey⟩)
  have hafter := (becomesProgram_optimizeBy h).every (preserved_assignable hs s.options (keysAll p))
    (Node.forall_every_iff_parts.2 hbefore)
  obtain ⟨n, hn, hkey⟩ := mem_keysAll.1 hkey
  exact Node.forall_every_iff_parts.1 hafter n hn key hkey

/-- A pass leaves every key the key of its call, if its replacements do. -/
theorem carriesOwnKeys_run (hs : s.registry.KeepsOwnKeys) (h : s.run p = .ok q)
    (hp : ∀ n ∈ partsAll p, CarriesOwnKey n) : ∀ n ∈ partsAll q, CarriesOwnKey n :=
  Node.forall_every_iff_parts.1 <| (becomesProgram_optimizeBy h).every
    (preserved_carriesOwnKey hs) (Node.forall_every_iff_parts.2 hp)

/-- The pass makes the second program of the first one and assigns the key: no node had it before, and
    one has it now. The pass keeps results, and the function in its registry allows it. -/
structure Assigns (s : Pass) (p q : Program) (key : MemoKey) : Prop where
  run : s.run p = .ok q
  absent : key ∉ keysAll p
  present : key ∈ keysAll q
  assignable : Assignable s.registry s.options key

end Pass

/-! ## 2. Passes -/

/-- What the passes make of a program, one after the other. The first error is the end of it. -/
def runAll : List Pass → Program → Except CompileError Program
  | [], p => .ok p
  | s :: passes, p => (s.run p).bind (runAll passes)

/-- The key is in the program, and in what each of the passes makes of it. -/
def Stays (key : MemoKey) : List Pass → Program → Prop
  | [], p => key ∈ keysAll p
  | s :: passes, p => key ∈ keysAll p ∧ ∀ q, s.run p = .ok q → Stays key passes q

/-- One of the passes assigned the key, and it has been there ever since. -/
def AssignedBy (passes : List Pass) (p : Program) (key : MemoKey) : Prop :=
  ∃ before s after q q', passes = before ++ s :: after ∧ runAll before p = .ok q ∧
    s.Assigns q q' key ∧ Stays key after q'

theorem Stays.mem {key : MemoKey} {passes : List Pass} {p : Program} (h : Stays key passes p) :
    key ∈ keysAll p := by
  cases passes with
  | nil => exact h
  | cons s passes => exact h.1

section

variable {passes : List Pass} {p q : Program}

/-- The first pass makes a program, from which the others go on. -/
theorem runAll_cons_eq_ok {s : Pass} (h : runAll (s :: passes) p = .ok q) :
    ∃ p', s.run p = .ok p' ∧ runAll passes p' = .ok q := by
  cases hs : s.run p with
  | error e =>
      rw [runAll, hs] at h
      cases h
  | ok p' =>
      rw [runAll, hs] at h
      exact ⟨p', rfl, h⟩

/-- **A key that is there after the passes was there all the time, or one of them assigned it.** -/
theorem stays_or_assignedBy (hpasses : ∀ s ∈ passes, s.registry.CopiesKeys)
    (h : runAll passes p = .ok q) {key : MemoKey} (hkey : key ∈ keysAll q) :
    Stays key passes p ∨ AssignedBy passes p key := by
  induction passes generalizing p with
  | nil =>
      cases h
      exact Or.inl hkey
  | cons s passes ih =>
      obtain ⟨hfirst, hrest⟩ := List.forall_mem_cons.1 hpasses
      obtain ⟨p', hs, hall⟩ := runAll_cons_eq_ok h
      rcases ih hrest hall with hstays | ⟨before, s', after, q₁, q₂, rfl, hbefore, hassigns, hafter⟩
      · by_cases hp : key ∈ keysAll p
        · refine Or.inl ⟨hp, fun p'' hs' => ?_⟩
          obtain rfl : p' = p'' := Except.ok.inj (hs.symm.trans hs')
          exact hstays
        · -- the key came up in the first pass
          have hassignable := (s.mem_keysAll_run hfirst hs hstays.mem).resolve_left hp
          exact Or.inr ⟨[], s, passes, p, p', rfl, rfl, ⟨hs, hp, hstays.mem, hassignable⟩, hstays⟩
      · refine Or.inr ⟨s :: before, s', after, q₁, q₂, rfl, ?_, hassigns, hafter⟩
        rw [runAll, hs]
        exact hbefore

/-- Passes one after the other leave every key the key of its call, if their replacements do. -/
theorem carriesOwnKeys_runAll (hpasses : ∀ s ∈ passes, s.registry.KeepsOwnKeys)
    (h : runAll passes p = .ok q) (hp : ∀ n ∈ partsAll p, CarriesOwnKey n) :
    ∀ n ∈ partsAll q, CarriesOwnKey n := by
  induction passes generalizing p with
  | nil =>
      cases h
      exact hp
  | cons s passes ih =>
      obtain ⟨hfirst, hrest⟩ := List.forall_mem_cons.1 hpasses
      obtain ⟨p', hs, hall⟩ := runAll_cons_eq_ok h
      exact ih hrest hall (s.carriesOwnKeys_run hfirst hs hp)

end

end Optimizer

/-! ## 3. Calls with literal arguments -/

namespace Run

variable {α β : Type}

/-- The run has nothing to do with kept results: it does not depend on them, and leaves them as they
    are. -/
def Apart (m : Run α) : Prop :=
  ∀ memo w, m.result ⟨memo, w⟩ = ((m.result ⟨∅, w⟩).1, ⟨memo, (m.result ⟨∅, w⟩).2.world⟩)

theorem Apart.pure (a : α) : Apart (Pure.pure a) := fun _ _ => rfl

theorem Apart.throw (e : RuntimeError) : Apart (throw e : Run α) := fun _ _ => rfl

theorem Apart.bind {m : Run α} {f : α → Run β} (hm : Apart m) (hf : ∀ a, Apart (f a)) :
    Apart (m >>= f) := by
  intro memo w
  have hempty := hm ∅ w
  rw [result_bind, result_bind, hm memo w]
  rcases h : m.result ⟨∅, w⟩ with ⟨e | a, t⟩
  · rfl
  · -- the session in between keeps nothing, either
    rw [h] at hempty
    have ht : t = ⟨∅, t.world⟩ := congrArg Prod.snd hempty
    dsimp only
    rw [hf a memo t.world, ← ht]

end Run

namespace Evaluator

open Run Node

variable {r : Registry} {limit : Nat}

theorem apart_execute (f : Function) (name : String) (vs : List Value) (p : Place) :
    Apart (execute f name vs p) := by
  intro memo w
  rw [result_execute, result_execute]

/-- Literals are evaluated without kept results, also where they are too deep. -/
theorem apart_evalAllAt {ns : List Node} {ls : List Literal} (h : literals? ns = some ls)
    (d : Nat) : Apart (evalAllAt r limit d ns) := by
  induction ns generalizing ls with
  | nil => exact .pure _
  | cons n ns ih =>
      obtain ⟨l, q, ls', rfl, hls', rfl⟩ := literals?_cons_eq_some h
      have hfirst : Apart (evalAt r limit d (.literal l q)) := by
        by_cases hd : limit < d
        · rw [evalAt_of_lt hd]
          exact .throw _
        · rw [evalAt_literal (Nat.not_lt.1 hd)]
          exact .pure _
      exact hfirst.bind fun v => (ih hls').bind fun vs => .pure _

/-- **What is computed for a call with literal arguments has nothing to do with kept results.** -/
theorem apart_evalCall {args : List Node} {ls : List Literal} (h : literals? args = some ls)
    (d : Nat) (name : String) (p : Place) : Apart (evalCall r limit d name p args) := by
  rcases callee_cases r p name args.length with ⟨f, -, -, hc⟩ | ⟨e, hc⟩
  · rw [evalCall_of_callee hc]
    exact (apart_evalAllAt h (d + 1)).bind fun vs => apart_execute f name vs p
  · rw [evalCall_of_refused hc]
    exact .throw e

end Evaluator

/-! ## 4. Keys after passes -/

namespace Optimizer

open Node (keysAll partsAll)

/-- **Every memo key was assigned by a pass, and belongs to its own call.** Whatever passes are done on
    a program without keys, one of them assigned every key that there is in the end: one that keeps
    results, and with a registry whose function allows it. If replacements keep keys in order, a node
    with a key is a call with literal arguments, what is computed for it has nothing to do with kept
    results, and its key is that of the call. -/
theorem assigned_of_runAll {passes : List Pass} (hpasses : ∀ s ∈ passes, s.registry.CopiesKeys)
    {p q : Program} (hp : ∀ n ∈ p, n.Unkeyed) (h : runAll passes p = .ok q) :
    (∀ key ∈ keysAll q, AssignedBy passes p key) ∧
      ((∀ s ∈ passes, s.registry.KeepsOwnKeys) →
        ∀ n ∈ partsAll q, ∀ key, n.memo? = some key →
          (∃ name place args, n = .call name place args (some key) ∧
            (∀ m ∈ args, m.isLiteral = true) ∧
            ∀ r limit d, (Evaluator.evalCall r limit d name place args).Apart) ∧
          n.memoKey? = some key) := by
  constructor
  · intro key hkey
    refine (stays_or_assignedBy hpasses h hkey).resolve_left fun hstays => ?_
    exact Node.not_mem_keysAll hp key hstays.mem
  · intro hkeeps n hn key hkey
    have hnone : ∀ m ∈ partsAll p, Node.CarriesOwnKey m := fun m hm =>
      Node.carriesOwnKey_of_memo?_eq_none (Node.forall_every_iff_parts.1 hp m hm)
    have hown := carriesOwnKeys_runAll hkeeps h hnone n hn key hkey
    refine ⟨?_, hown⟩
    cases n with
    | literal v place => cases hkey
    | call name place args memo =>
        obtain rfl : memo = some key := hkey
        obtain ⟨ls, hls, -⟩ := Node.memoKey?_call_eq_some hown
        exact ⟨name, place, args, rfl, Node.isLiteral_of_literals? hls,
          fun r limit d => Evaluator.apart_evalCall hls d name place⟩

/-- A pass that keeps results, and one that does not. -/
def escapePasses : List Pass :=
  [⟨.standard, {}, budgetFor .standard⟩,
    ⟨.standard, { keepResults := false }, budgetFor .standard⟩]

/-- The call that has its key keeps it in a pass that would not assign it. -/
theorem runAll_escapePasses :
    runAll escapePasses [Engine.escapeCall none] = .ok Engine.escapeProgram := by
  rw [escapePasses, runAll, Pass.run, optimizeBy_budgetFor, Engine.optimize_escapeCall]
  show (Pass.run _ Engine.escapeProgram).bind (runAll []) = _
  rw [Pass.run, optimizeBy_budgetFor, Engine.escapeProgram, Engine.optimize_escapeCall_unkept]
  rfl

theorem assigned_of_runAll_escape :
    (∀ s ∈ escapePasses, s.registry.CopiesKeys ∧ s.registry.KeepsOwnKeys) ∧
      (∀ n ∈ [Engine.escapeCall none], n.Unkeyed) ∧
      runAll escapePasses [Engine.escapeCall none] = .ok Engine.escapeProgram ∧
      AssignedBy escapePasses [Engine.escapeCall none] Engine.escapeKey ∧
      (Engine.escapeCall (some Engine.escapeKey)).memoKey? = some Engine.escapeKey := by
  have hstandard : Registry.standard.CopiesKeys ∧ Registry.standard.KeepsOwnKeys :=
    ⟨Registry.copiesKeys_standard, Registry.keepsOwnKeys_standard⟩
  have hpasses : ∀ s ∈ escapePasses, s.registry.CopiesKeys ∧ s.registry.KeepsOwnKeys :=
    List.forall_mem_cons.2 ⟨hstandard, List.forall_mem_singleton.2 hstandard⟩
  have hunkeyed : ∀ n ∈ [Engine.escapeCall none], n.Unkeyed :=
    List.forall_mem_singleton.2 ⟨rfl, rfl, trivial⟩
  have hkey : Engine.escapeKey ∈ keysAll Engine.escapeProgram := List.mem_cons_self
  obtain ⟨hassigned, hown⟩ :=
    assigned_of_runAll (fun s hs => (hpasses s hs).1) hunkeyed runAll_escapePasses
  exact ⟨hpasses, hunkeyed, runAll_escapePasses, hassigned Engine.escapeKey hkey,
    (hown (fun s hs => (hpasses s hs).2) (Engine.escapeCall (some Engine.escapeKey))
      List.mem_cons_self Engine.escapeKey rfl).2⟩

/-- A pass in which calls of `append` are replaced. -/
def appendPass : Pass := ⟨appending, {}, budgetFor appending⟩

/-- The array of the letter b is put behind the letter a. Both arrays have their keys when the call is
    replaced. -/
theorem run_appendPass :
    appendPass.run [appendCall (arrayCall [letter "b"] none)] =
      .ok [arrayCall [letter "a", letterCall "b"] (some (letterKey "a"))] := by
  rw [Pass.run, appendPass, optimizeBy_budgetFor]
  cbv

/-- What is computed for the array of a letter and an array with a key depends on kept results. -/
theorem not_apart_arrayCall :
    ¬ (Evaluator.evalCall appending 128 1 "array" default [letter "a", letterCall "b"]).Apart := by
  intro h
  have hletter : Evaluator.evalAt appending 128 2 (letter "a") = pure (.string "a") :=
    Evaluator.evalAt_literal (by decide)
  -- nothing is kept at first, and then the result of the inner array is
  obtain ⟨s, hresult, hkept⟩ := @kept_arrayCall ["b"] 128 2 (by decide) (letterKey "b")
    ⟨∅, .fresh .empty⟩ Std.HashMap.getElem?_empty
  have hinner : (Evaluator.evalAt appending 128 2 (letterCall "b")).result ⟨∅, .fresh .empty⟩ =
      (.ok (Value.ofList [.string "b"]), s) := hresult
  have hargs : (Evaluator.evalAllAt appending 128 2 [letter "a", letterCall "b"]).result
      ⟨∅, .fresh .empty⟩ = (.ok [.string "a", Value.ofList [.string "b"]], s) := by
    simp only [Evaluator.evalAllAt, hletter, Run.result_bind, Run.result_pure, hinner]
  have hmemo : ((Evaluator.evalCall appending 128 1 "array" default
      [letter "a", letterCall "b"]).result ⟨∅, .fresh .empty⟩).2.memo = s.memo := by
    rw [Evaluator.evalCall_of_callee (Evaluator.callee_of_get? get?_appending_array _ rfl),
      Run.result_bind_of_ok hargs, Evaluator.result_execute]
  rw [h] at hmemo
  rw [← hmemo] at hkept
  cases hkept.symm.trans Std.HashMap.getElem?_empty

/-- **A replacement may leave a key to a call that it is not the key of.** The function makes no keys, and
    what it puts in the place of a call has the value that the call would have. But it adds an argument to
    a call with a key: the key is not that of the call which comes out, one of the arguments is a call
    with a key itself, and what is computed for the call depends on kept results. -/
theorem foreign_key_of_appending :
    appendPass.registry.CopiesKeys ∧
      (∀ vs v p q w, appendTo.execute [Value.ofList vs, v] p w =
        Function.array.execute (vs ++ [v]) q w) ∧
      (appendCall (arrayCall [letter "b"] none)).Unkeyed ∧
      runAll [appendPass] [appendCall (arrayCall [letter "b"] none)] =
        .ok [arrayCall [letter "a", letterCall "b"] (some (letterKey "a"))] ∧
      (arrayCall [letter "a", letterCall "b"] (some (letterKey "a"))).memoKey? ≠
        some (letterKey "a") ∧
      (letterCall "b").isLiteral = false ∧
      ¬ (Evaluator.evalCall appending 128 1 "array" default
        [letter "a", letterCall "b"]).Apart := by
  have hunkeyed : (appendCall (arrayCall [letter "b"] none)).Unkeyed :=
    ⟨rfl, ⟨rfl, ⟨rfl, trivial⟩⟩, ⟨rfl, ⟨rfl, trivial⟩⟩, trivial⟩
  refine ⟨copiesKeys_appending, execute_appendTo, hunkeyed, ?_, ?_, rfl, not_apart_arrayCall⟩
  · rw [runAll, run_appendPass]
    rfl
  · nofun

end Optimizer

end CallScript
