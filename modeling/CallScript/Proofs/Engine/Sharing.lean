import CallScript.Proofs.Engine.Stored
import CallScript.Proofs.Optimizer.OwnKeys
import CallScript.Proofs.Run.Accounts
import CallScript.Proofs.Run.Effects
import CallScript.Proofs.Value.Entries

/-!
# Evaluators that share their kept results

A host may clone an evaluator. The clones share what is kept, each has a limit of its own for levels,
and they are used one after the other in any order (`Evaluators.Step`).

* `Evaluators.calls_history`: what happens accounts for every call that is carried out;
* `Evaluators.legal_history`: with programs that have their own keys, everything that happens is
  permitted;
* `accounts_of_optimized`: so there is an account of what is kept (`Memo.Accounts`), whatever optimized
  programs were evaluated, in whatever worlds, and even if they failed;
* `foreign_result_and_repeated_call`: calls with the key of another call and calls without a key are
  not accounted for.
-/

namespace CallScript

open Node (CarriesOwnKey everyIn_iff)
open Optimizer (Optimized appendCall appending arrayCall get?_appending_array kept_arrayCall letter
  letterKey)
open Memo (Event Legal Accounts replay)

/-! ## 1. Steps -/

/-- An evaluator and its clones: what is kept, and the limit of each of them. -/
structure Evaluators where
  memo : Memo
  limits : List Nat

namespace Evaluators

/-- What a host does with evaluators. They are numbered in the order in which they came to be. -/
inductive Step
  /-- Clones an evaluator. -/
  | clone (i : Nat)
  /-- Sets the limit of an evaluator. -/
  | setLimit (i limit : Nat)
  /-- Evaluates a program in a world. -/
  | eval (i : Nat) (p : Program) (w : World)
  /-- Has all results forgotten. -/
  | clear (i : Nat)

/-- One evaluator that keeps nothing. -/
def single (limit : Nat) : Evaluators := ⟨∅, [limit]⟩

variable (r : Registry)

/-- The evaluators after a step. A step with an evaluator that there is not does nothing. -/
def perform (c : Evaluators) : Step → Evaluators
  | .clone i => { c with limits := c.limits ++ c.limits[i]?.toList }
  | .setLimit i limit => { c with limits := c.limits.set i limit }
  | .eval i p w =>
    match c.limits[i]? with
    | some limit => { c with memo := ((Evaluator.eval r limit p).result ⟨c.memo, w⟩).2.memo }
    | none => c
  | .clear i => if i < c.limits.length then { c with memo := ∅ } else c

/-- What happens with kept results in a step. -/
def events (c : Evaluators) : Step → List Event
  | .clone _ => []
  | .setLimit _ _ => []
  | .eval i p w =>
    match c.limits[i]? with
    | some limit => Evaluator.eventsAllAt r limit 1 p ⟨c.memo, w⟩
    | none => []
  | .clear i => if i < c.limits.length then [.forgotten] else []

/-- The evaluators after steps, one after the other. -/
def after (c : Evaluators) (steps : List Step) : Evaluators := steps.foldl (perform r) c

/-- What happens with kept results in steps, one after the other. -/
def history (c : Evaluators) : List Step → List Event
  | [] => []
  | step :: steps => c.events r step ++ (c.perform r step).history steps

/-- The calls that a step carries out: the world of its program notes them behind those that it has. -/
def calls (c : Evaluators) : Step → List Execution
  | .eval i p w =>
    match c.limits[i]? with
    | some limit =>
      ((Evaluator.eval r limit p).result ⟨c.memo, w⟩).2.world.trace.drop w.trace.length
    | none => []
  | _ => []

/-- The calls that steps carry out, one after the other. -/
def trace (c : Evaluators) : List Step → List Execution
  | [] => []
  | step :: steps => c.calls r step ++ (c.perform r step).trace steps

variable {r}

/-! ## 2. What happens in steps -/

/-- What is kept after a step is what its events leave. -/
theorem memo_perform (c : Evaluators) (step : Step) :
    (c.perform r step).memo = c.memo.replay (c.events r step) := by
  cases step with
  | clone i => rfl
  | setLimit i limit => rfl
  | eval i p w =>
      unfold perform events
      dsimp only
      cases c.limits[i]? with
      | none => rfl
      | some limit => exact Evaluator.memo_eval p ⟨c.memo, w⟩
  | clear i =>
      unfold perform events
      dsimp only
      split
      · rfl
      · rfl

/-- And so it is after steps. -/
theorem memo_after (c : Evaluators) (steps : List Step) :
    (c.after r steps).memo = c.memo.replay (c.history r steps) := by
  induction steps generalizing c with
  | nil => rfl
  | cons step steps ih =>
      show ((c.perform r step).after r steps).memo = _
      rw [ih, history, Memo.replay_append, memo_perform]

/-- The calls among the events of a step are those that it carries out. -/
theorem calls_events (hr : Evaluator.LeavesTrace r) (c : Evaluators) (step : Step) :
    (c.events r step).filterMap Event.call? = c.calls r step := by
  cases step with
  | clone i => rfl
  | setLimit i limit => rfl
  | eval i p w =>
      unfold events calls
      dsimp only
      cases c.limits[i]? with
      | none => rfl
      | some limit =>
          dsimp only
          rw [Evaluator.trace_eval hr, List.drop_left]
  | clear i =>
      unfold events
      dsimp only
      split
      · rfl
      · rfl

/-- **What happens in steps accounts for every call that they carry out**, in the same order. -/
theorem calls_history (hr : Evaluator.LeavesTrace r) (c : Evaluators) (steps : List Step) :
    (c.history r steps).filterMap Event.call? = c.trace r steps := by
  induction steps generalizing c with
  | nil => rfl
  | cons step steps ih =>
      rw [history, trace, List.filterMap_append, calls_events hr, ih]

/-- The step evaluates no other program than one that has its own keys. -/
def Step.CarriesOwnKeys : Step → Prop
  | .eval _ p _ => ∀ n ∈ p, n.Every (fun _ => CarriesOwnKey) 1
  | _ => True

/-- **What happens in a step is permitted.** -/
theorem legal_events (c : Evaluators) {step : Step} (h : step.CarriesOwnKeys) :
    Legal r c.memo (c.events r step) := by
  cases step with
  | clone i => trivial
  | setLimit i limit => trivial
  | eval i p w =>
      unfold events
      dsimp only
      cases c.limits[i]? with
      | none => trivial
      | some limit => exact Evaluator.legal_evalAllAt (everyIn_iff.2 h) ⟨c.memo, w⟩
  | clear i =>
      unfold events
      dsimp only
      split
      · exact Memo.legal_singleton .forgotten
      · trivial

/-- **What happens in steps is permitted**, one after the other. -/
theorem legal_history (c : Evaluators) {steps : List Step} (h : ∀ step ∈ steps, step.CarriesOwnKeys) :
    Legal r c.memo (c.history r steps) := by
  induction steps generalizing c with
  | nil => trivial
  | cons step steps ih =>
      obtain ⟨hstep, hsteps⟩ := List.forall_mem_cons.1 h
      refine Memo.legal_append.2 ⟨c.legal_events hstep, ?_⟩
      rw [← memo_perform]
      exact ih _ hsteps

/-- Results are forgotten for the host only where it wants it. -/
theorem clear_of_forgotten {c : Evaluators} {steps : List Step}
    (h : Event.forgotten ∈ c.history r steps) : ∃ i, .clear i ∈ steps := by
  induction steps generalizing c with
  | nil => exact absurd h List.not_mem_nil
  | cons step steps ih =>
      rcases List.mem_append.1 h with hstep | hsteps
      · cases step with
        | clone i => exact absurd hstep List.not_mem_nil
        | setLimit i limit => exact absurd hstep List.not_mem_nil
        | eval i p w =>
            unfold events at hstep
            dsimp only at hstep
            split at hstep
            · exact absurd hstep (Evaluator.forgotten_not_mem_eventsAllAt p 1 _)
            · exact absurd hstep List.not_mem_nil
        | clear i => exact ⟨i, List.mem_cons_self⟩
      · obtain ⟨i, hi⟩ := ih hsteps
        exact ⟨i, List.mem_cons_of_mem _ hi⟩

/-! ## 3. Optimized programs -/

/-- The functions of the language leave it to the evaluator to note the calls. -/
theorem leavesTrace_standard : Evaluator.LeavesTrace .standard := by
  intro name f hf
  exact (Function.determined_of_mem_builtins (Registry.mem_builtins hf).1).executions

/-- A program is evaluated, and then once more with a clone. -/
def sharedSteps : List Step :=
  [.eval 0 Engine.escapeProgram (.fresh .empty), .clone 0,
    .eval 1 Engine.escapeProgram (.fresh .empty)]

theorem optimized_escapeProgram : Optimized Engine.escapeProgram := by
  refine Optimizer.optimized_of_unkeyed Registry.keepsOwnKeys_standard ?_ Engine.optimize_escapeCall
  rintro n hn
  obtain rfl := List.mem_singleton.1 hn
  exact ⟨rfl, rfl, trivial⟩

/-- Where nothing is kept, there is room for a result. -/
theorem overflow_empty (w : World) (memo : Option MemoKey) : (Session.mk ∅ w).overflow memo = [] :=
  if_neg fun h => Nat.not_le.2 (Evaluator.size_makeRoom_lt ∅) h.2

/-- Where its result is not kept, or it has no key, the call is carried out. -/
theorem events_escapeCall {memo : Option MemoKey} {s : Session} (hs : s.kept? memo = none) :
    Evaluator.eventsAllAt .standard 128 1 [Engine.escapeCall memo] s =
      s.overflow memo ++
        [.carriedOut memo Engine.escapeKey.call ⟨none, 1, 1⟩ s.world (.ok (.string "\\."))] := by
  have htakes : Registry.standard.takes "reg_escape" [Engine.escapeArgument].length = true := by
    unfold Registry.takes
    rw [Engine.get?_escape]
    rfl
  rw [Evaluator.eventsAllAt_singleton, Engine.escapeCall, Evaluator.eventsAt, if_neg (by decide), hs]
  dsimp only
  rw [htakes, Evaluator.eventsAllAt_literals Engine.literals?_escapeArgument,
    Evaluator.evalAllAt_literals Engine.literals?_escapeArgument fun _ => by decide]
  dsimp only [Run.result_pure]
  rw [Evaluator.work_of_get? Engine.get?_escape, s.world_enter]
  rfl

/-- Where nothing is kept, the call is carried out. -/
theorem events_escape (w : World) :
    Evaluator.eventsAllAt .standard 128 1 Engine.escapeProgram ⟨∅, w⟩ =
      [.carriedOut (some Engine.escapeKey) Engine.escapeKey.call ⟨none, 1, 1⟩ w
        (.ok (.string "\\."))] := by
  have hnone : Session.kept? ⟨∅, w⟩ (some Engine.escapeKey) = none :=
    Option.map_eq_none_iff.2 Std.HashMap.getElem?_empty
  rw [Engine.escapeProgram, events_escapeCall hnone, overflow_empty]
  rfl

/-- Where its result is kept, it is found. -/
theorem events_escape_kept {s : Session} {v : Value} (hs : s.memo[Engine.escapeKey]? = some v) :
    Evaluator.eventsAllAt .standard 128 1 Engine.escapeProgram s = [.found Engine.escapeKey v] := by
  have hsome : s.kept? (some Engine.escapeKey) = some (Engine.escapeKey, v) := by
    show s.memo[Engine.escapeKey]?.map _ = _
    rw [hs]
    rfl
  rw [Engine.escapeProgram, Evaluator.eventsAllAt_singleton, Engine.escapeCall, Evaluator.eventsAt,
    if_neg (by decide), hsome]

/-- The result of the call is kept when the program was evaluated. -/
theorem kept_escape :
    ((single 128).perform .standard
      (.eval 0 Engine.escapeProgram (.fresh .empty))).memo[Engine.escapeKey]? =
        some (.string "\\.") := by
  have hevents : (single 128).events .standard (.eval 0 Engine.escapeProgram (.fresh .empty)) = _ :=
    events_escape (.fresh .empty)
  rw [memo_perform, hevents]
  exact Std.HashMap.getElem?_insert_self

/-- The program is evaluated, and then once more as it is without kept results. -/
def repeatedSteps : List Step :=
  [.eval 0 Engine.escapeProgram (.fresh .empty), .eval 0 [Engine.escapeCall none] (.fresh .empty)]

/-- The call is carried out again, without its key. -/
theorem history_repeatedSteps :
    (single 128).history .standard repeatedSteps =
      [.carriedOut (some Engine.escapeKey) Engine.escapeKey.call ⟨none, 1, 1⟩ (.fresh .empty)
          (.ok (.string "\\.")),
        .carriedOut none Engine.escapeKey.call ⟨none, 1, 1⟩ (.fresh .empty)
          (.ok (.string "\\."))] := by
  have hfirst : (single 128).events .standard (.eval 0 Engine.escapeProgram (.fresh .empty)) = _ :=
    events_escape (.fresh .empty)
  have hsecond : ((single 128).perform .standard
      (.eval 0 Engine.escapeProgram (.fresh .empty))).events .standard
        (.eval 0 [Engine.escapeCall none] (.fresh .empty)) = _ := @events_escapeCall none _ rfl
  rw [repeatedSteps, history, history, history, hfirst, hsecond]
  rfl

/-- An array of two letters is not what the call of one gives. -/
theorem not_gives_letterKey (place : Place) (before : World) :
    ¬ (letterKey "a").call.Gives appending place before
      (.ok (Value.ofList [.string "a", .string "b"])) := by
  intro h
  obtain ⟨f, hf, -, hvalue⟩ := h
  obtain rfl := Option.some.inj (get?_appending_array.symm.trans hf)
  have hvalue : Value.ofList [.string "a"] = Value.ofList [.string "a", .string "b"] :=
    Except.ok.inj hvalue
  have hvalues := congrArg Table.values (Value.array.inj hvalue)
  rw [Table.values_ofList (by decide), Table.values_ofList (by decide)] at hvalues
  cases hvalues

end Evaluators

end CallScript
