import CallScript.Proofs.Engine.Transcript
import CallScript.Proofs.Optimizer.Places
import CallScript.Proofs.Optimizer.Validation
import CallScript.Proofs.Run.Parting
import CallScript.Proofs.Token.Writing

/-!
# Programs that are stored

A program may be compiled once and run many times, with other scripts and other options in between
(`Engine.Bench`). Its levels were checked for the limit of the moment at which it was compiled; when it
runs, they are checked against the limit of that moment, as far as the run comes to its nodes.

* `Bench.Sound` is what every use preserves (`Bench.Sound.use`);
* `run_forget_iff`: a stored program has the outcome that it has after the kept results are forgotten
  exactly when both runs find the same at the calls at the limit, and it fails for its depth exactly
  where it comes to a node deeper than the limit;
* `run_forget_of_depth_le`: where the limit leaves room for the whole program, nothing depends on kept
  results;
* `run_ne_run_forget`: with a lower limit, a call has a value where its result is kept and none where
  it is not.
-/

namespace CallScript.Engine

open Evaluator Run Node

/-! ## 1. Uses -/

/-- What may be done with an engine and with the programs that it compiled. -/
inductive Use
  | operation (op : Operation)
  /-- Compiles a script, and stores the program unless there is an error. -/
  | store (source : String)
  /-- Runs a stored program; the text serves to find errors. -/
  | run (slot : Nat) (source : String)

/-- An engine and the programs that it compiled. -/
structure Bench where
  engine : Engine
  programs : List Program

namespace Bench

/-- A new engine, with which nothing is compiled. -/
def new (r : Registry) (services : Services) (options : Options) : Bench :=
  ⟨Engine.new r services options, []⟩

def use (b : Bench) : Use → Bench
  | .operation op => { b with engine := (b.engine.perform op).2 }
  | .store source =>
    match b.engine.compile source with
    | .ok p => { b with programs := b.programs ++ [p] }
    | .error _ => b
  | .run slot source =>
    match b.programs[slot]? with
    | some p => { b with engine := (b.engine.run p source).2 }
    | none => b

/-- The bench after uses, one after the other. -/
def after (b : Bench) (uses : List Use) : Bench := uses.foldl use b

end Bench

/-- The engine was new once, with the registry, and came to hold the program by uses. -/
def Stores (r : Registry) (e : Engine) (p : Program) : Prop :=
  ∃ services options uses, ((Bench.new r services options).after uses).engine = e ∧
    p ∈ ((Bench.new r services options).after uses).programs

/-- The nodes that a run of the program comes to. -/
def visits (e : Engine) (p : Program) : List Visit :=
  visitsAllAt e.registry e.options.maxDepth 1 p e.session

/-- What a run of the program finds at the calls at the limit: whether their results are kept. -/
def found (e : Engine) (p : Program) : List Bool := finds e.options.maxDepth (e.visits p)

/-! ## 2. What uses preserve -/

/-- What an optimizing engine makes of the program that it reads. -/
theorem compile_of_parse {e : Engine} {source : String} {p p' : Program}
    (hp : e.parse source = .ok p) (hopt : e.options.optimize = true)
    (hp' : Optimizer.optimize e.registry ⟨e.options.keepResults, true, e.options.maxDepth⟩ p =
      .ok p') : e.compile source = .ok p' := by
  unfold compile
  rw [hp]
  dsimp only
  rw [if_pos hopt, hp']

/-- No two nodes of a compiled program stand at the same place. -/
theorem distinctPlaces_of_compile {e : Engine} (hr : e.registry.KeepsPlaces) {source : String}
    {p : Program} (h : e.compile source = .ok p) : DistinctPlaces p := by
  unfold compile parse parseSource at h
  cases hscan : Token.scan source e.options.file with
  | error err =>
      rw [hscan] at h
      cases h
  | ok tokens =>
    cases hparse : Node.parse e.options.maxDepth tokens with
    | error err =>
        simp only [hscan, hparse] at h
        cases h
    | ok program =>
      have hplaces := distinctPlaces_of_parse hparse (Token.nodup_places_scan hscan)
      simp only [hscan, hparse] at h
      split at h
      · cases hopt : Optimizer.optimize e.registry
            ⟨e.options.keepResults, true, e.options.maxDepth⟩ program with
        | error err =>
            rw [hopt] at h
            cases h
        | ok program' =>
            rw [hopt] at h
            cases h
            exact Optimizer.distinctPlaces_of_optimize hr hopt hplaces
      · cases h
        exact hplaces

/-- The program is one that the optimizer may give: its memo keys are its own, and no two nodes stand
    at the same place. -/
structure Compiled (r : Registry) (p : Program) : Prop where
  keyed : ∀ n ∈ p, n.Every (fun _ => OwnKeyed r) 1
  distinct : DistinctPlaces p

theorem compiled_of_compile {e : Engine} (hr : e.registry.Lawful) (hplaces : e.registry.KeepsPlaces)
    {source : String} {p : Program} (h : e.compile source = .ok p) : Compiled e.registry p :=
  ⟨fun n hn => (wellKeyed_of_compile hr h n hn).imp fun _ _ => WellKeyed.ownKeyed,
    distinctPlaces_of_compile hplaces h⟩

/-- The run of a compiled program, at whatever limit. -/
theorem Compiled.dependsOn {r : Registry} (hr : r.Lawful) {p : Program} (h : Compiled r p)
    (limit : Nat) :
    DependsOn r limit (placesAll p) (Evaluator.eval r limit p)
      fun s => finds limit (visitsAllAt r limit 1 p s) :=
  dependsOn_eval hr.functions h.keyed h.distinct

/-- **A run of a compiled program leaves a sound engine sound**, also where its limit was changed. -/
theorem Sound.run {e : Engine} (h : e.Sound) {p : Program} (hp : Compiled e.registry p)
    (source : String) : (e.run p source).2.Sound := by
  have hsound := (hp.dependsOn h.registry e.options.maxDepth).sound h.memo
  rcases hs : (Evaluator.eval e.registry e.options.maxDepth p).result e.session with ⟨outcome, s⟩
  rw [hs] at hsound
  rw [run_of_result hs]
  exact ⟨h.registry, hsound⟩

theorem registry_run (e : Engine) (p : Program) (source : String) :
    (e.run p source).2.registry = e.registry := by
  rcases hs : (Evaluator.eval e.registry e.options.maxDepth p).result e.session with ⟨outcome, s⟩
  rw [run_of_result hs]

/-- No operation changes the registry. -/
theorem registry_perform (e : Engine) (op : Operation) :
    (e.perform op).2.registry = e.registry := by
  cases op with
  | eval source =>
      show (e.eval source).2.registry = e.registry
      cases hp : e.compile source with
      | error error => rw [eval_of_refused hp]
      | ok p => rw [eval_of_compiled hp, registry_run]
  | _ => rfl

/-- The engine is sound, its registry keeps places, and what is stored was compiled. -/
structure Bench.Sound (r : Registry) (b : Bench) : Prop where
  registry : b.engine.registry = r
  engine : b.engine.Sound
  programs : ∀ p ∈ b.programs, Compiled r p

namespace Bench

variable {r : Registry} {b : Bench}

/-- **Every use leaves a sound bench sound.** -/
theorem Sound.use (hplaces : r.KeepsPlaces) (h : Sound r b) (u : Use) : Sound r (b.use u) := by
  cases u with
  | operation op =>
      obtain ⟨-, hsound, -⟩ := h.engine.perform op
      exact ⟨(registry_perform b.engine op).trans h.registry, hsound, h.programs⟩
  | store source =>
      unfold Bench.use
      dsimp only
      cases hp : b.engine.compile source with
      | error error => exact h
      | ok p =>
          have hcompiled := compiled_of_compile h.engine.registry (h.registry ▸ hplaces) hp
          rw [h.registry] at hcompiled
          refine ⟨h.registry, h.engine, List.forall_mem_append.2 ⟨h.programs, ?_⟩⟩
          exact List.forall_mem_singleton.2 hcompiled
  | run slot source =>
      unfold Bench.use
      dsimp only
      cases hp : b.programs[slot]? with
      | none => exact h
      | some p =>
          have hcompiled := h.programs p (List.mem_of_getElem? hp)
          rw [← h.registry] at hcompiled
          have hregistry := registry_run b.engine p source
          exact ⟨hregistry.trans h.registry, h.engine.run hcompiled source, h.programs⟩

/-- And so do uses one after the other. -/
theorem Sound.after (hplaces : r.KeepsPlaces) (h : Sound r b) (uses : List Use) :
    Sound r (b.after uses) := by
  induction uses generalizing b with
  | nil => exact h
  | cons u uses ih => exact ih (h.use hplaces u)

theorem sound_new (hr : r.Lawful) (services : Services) (options : Options) :
    Sound r (new r services options) :=
  ⟨rfl, Engine.sound_new hr services options, fun _ hp => absurd hp List.not_mem_nil⟩

end Bench

/-- A program that was stored is a compiled one, and the engine that holds it is sound. -/
theorem Stores.sound {r : Registry} (hr : r.Lawful) (hplaces : r.KeepsPlaces) {e : Engine}
    {p : Program} (h : Stores r e p) : e.registry = r ∧ e.Sound ∧ Compiled r p := by
  obtain ⟨services, options, uses, rfl, hp⟩ := h
  have hsound := (Bench.sound_new hr services options).after hplaces uses
  exact ⟨hsound.registry, hsound.engine, hsound.programs p hp⟩

/-! ## 3. Outcomes -/

theorem outcome_run (e : Engine) (p : Program) (source : String) :
    (e.run p source).1 = ((Evaluator.eval e.registry e.options.maxDepth p).result e.session).1.mapError
      fun error => Error.locate source (.runtime error) :=
  congrArg Prod.fst (run_of_result rfl source)

/-- Different outcomes of a run are different outcomes for the engine. -/
theorem mapError_locate_inj {source : String} {o o' : Except RuntimeError Value}
    (h : (o.mapError fun error => Error.locate source (.runtime error)) =
      o'.mapError fun error => Error.locate source (.runtime error)) : o = o' := by
  cases o with
  | ok v => exact (mapError_eq_ok h.symm).symm
  | error e =>
      obtain ⟨e', rfl, he⟩ := mapError_eq_error h.symm
      cases congrArg Error.cause he
      rfl

/-- A compiled program has the outcome that it has after the kept results are forgotten exactly when
    both runs find the same. -/
theorem Compiled.outcome_iff {e : Engine} (h : e.Sound) {p : Program} (hp : Compiled e.registry p)
    (source : String) :
    (e.run p source).1 = (e.forget.run p source).1 ↔ e.found p = e.forget.found p := by
  have halike : Session.Alike e.registry e.services e.session.world.lines e.session.world.lines
      e.session e.forget.session :=
    ⟨(Session.Alike.self h.memo).world, h.memo, Memo.sound_empty e.registry⟩
  have hdepends := (hp.dependsOn h.registry e.options.maxDepth).iff halike
  rw [outcome_run, outcome_run]
  exact ⟨fun heq => hdepends.1 (mapError_locate_inj heq), fun heq => by rw [hdepends.2 heq]; rfl⟩

/-- **A program fails for its depth exactly where it comes to a node deeper than the limit.** -/
theorem run_tooDeep_iff (e : Engine) (p : Program) (source : String) (q : Place) :
    (e.run p source).1 =
        .error (Error.locate source (.runtime (.nestingTooDeep q e.options.maxDepth))) ↔
      ∃ v ∈ e.visits p, e.options.maxDepth < v.level ∧ v.node.place = q := by
  rw [outcome_run]
  refine Iff.trans ⟨fun h => ?_, fun h => ?_⟩ eval_tooDeep_iff
  · exact @mapError_locate_inj source _ (.error (.nestingTooDeep q e.options.maxDepth)) h
  · rw [h]
    rfl

/-! ## 4. Stored programs -/

/-- **A stored program has the outcome that it has after the kept results are forgotten exactly when
    both runs find the same at the limit**: at each call at the limit that has a memo key and
    arguments, both find its result kept or both do not. And it fails for its depth exactly where it
    comes to a node deeper than the limit. -/
theorem run_forget_iff {r : Registry} (hr : r.Lawful) (hplaces : r.KeepsPlaces) {e : Engine}
    {p : Program} (h : Stores r e p) (limit : Nat) (source : String) :
    (((e.setMaxDepth limit).run p source).1 = ((e.setMaxDepth limit).forget.run p source).1 ↔
        (e.setMaxDepth limit).found p = (e.setMaxDepth limit).forget.found p) ∧
      ∀ q, ((e.setMaxDepth limit).run p source).1 =
          .error (Error.locate source (.runtime (.nestingTooDeep q limit))) ↔
        ∃ v ∈ (e.setMaxDepth limit).visits p, limit < v.level ∧ v.node.place = q := by
  obtain ⟨rfl, hsound, hp⟩ := h.sound hr hplaces
  have hsound : (e.setMaxDepth limit).Sound := ⟨hsound.registry, hsound.memo⟩
  exact ⟨hp.outcome_iff hsound source, run_tooDeep_iff (e.setMaxDepth limit) p source⟩

/-- **Where the limit leaves room for the whole program, nothing depends on kept results.** -/
theorem run_forget_of_depth_le {r : Registry} (hr : r.Lawful) (hplaces : r.KeepsPlaces) {e : Engine}
    {p : Program} (h : Stores r e p) {limit : Nat} (hlimit : depthAll p ≤ limit)
    (source : String) :
    ((e.setMaxDepth limit).run p source).1 = ((e.setMaxDepth limit).forget.run p source).1 := by
  obtain ⟨rfl, hsound, hp⟩ := h.sound hr hplaces
  have hsound : (e.setMaxDepth limit).Sound := ⟨hsound.registry, hsound.memo⟩
  refine (hp.outcome_iff hsound source).2 ?_
  exact (finds_eq_nil hlimit _).trans (finds_eq_nil hlimit _).symm

/-! ## 5. A call whose result is kept -/

/-- The text of a script with one call. -/
def escapeSource : String := "reg_escape('.')"

/-- The argument of the call. -/
def escapeArgument : Node := .literal (.string ".") ⟨none, 1, 12⟩

/-- The key under which the result of the call is kept. -/
def escapeKey : MemoKey := ⟨"reg_escape", [.string "."]⟩

/-- The call, with the key or without. -/
def escapeCall (memo : Option MemoKey) : Node :=
  .call "reg_escape" ⟨none, 1, 1⟩ [escapeArgument] memo

/-- The program of the script. -/
def escapeProgram : Program := [escapeCall (some escapeKey)]

/-- An engine in which nothing has happened. -/
def freshEngine : Engine := new .standard Environment.empty {}

theorem get?_escape : Registry.standard.get? "reg_escape" = some .regEscape :=
  Registry.get?_name .regEscape (by simp [Registry.builtins])

theorem literals?_escapeArgument : literals? [escapeArgument] = some [.string "."] := rfl

/-- The text is made up of a name, and a string in parentheses. -/
theorem cuts_escapeSource : Token.Cuts ⟨none, 1, 1⟩ escapeSource.toList
    [⟨.ident "reg_escape", ⟨none, 1, 1⟩⟩, ⟨.leftParen, ⟨none, 1, 11⟩⟩,
      ⟨.string ".", ⟨none, 1, 12⟩⟩, ⟨.rightParen, ⟨none, 1, 15⟩⟩] := by
  have hname : Token.IsName "reg_escape".toList :=
    ⟨'r', _, rfl, rfl, List.all_eq_true.1 rfl⟩
  have hdot : Token.Writes (.string ".") ['\x27', '.', '\x27'] :=
    .string rfl (.plain '.' (by decide) (by decide) .nil)
  refine @Token.Cuts.token _ "reg_escape".toList _ _ _ (.word hname) ?_ ?_
  · rintro c ⟨⟩
    rfl
  refine @Token.Cuts.token _ ['('] _ _ _ (.punctuation rfl) (fun _ _ => rfl) ?_
  refine @Token.Cuts.token _ ['\x27', '.', '\x27'] _ _ _ hdot (fun _ _ => rfl) ?_
  exact @Token.Cuts.token _ [')'] _ _ _ (.punctuation rfl) (fun _ _ => rfl) (.stop _)

theorem parse_escapeSource : freshEngine.parse escapeSource = .ok [escapeCall none] := by
  have hscan : Token.scan escapeSource none =
      .ok [⟨.ident "reg_escape", ⟨none, 1, 1⟩⟩, ⟨.leftParen, ⟨none, 1, 11⟩⟩,
        ⟨.string ".", ⟨none, 1, 12⟩⟩, ⟨.rightParen, ⟨none, 1, 15⟩⟩, ⟨.eof, ⟨none, 1, 16⟩⟩] :=
    Token.scanFrom_of_cuts cuts_escapeSource _
  show parseSource none defaultMaxDepth escapeSource = _
  unfold parseSource
  rw [hscan]
  rfl

theorem optimize_escapeCall :
    Optimizer.optimize .standard {} [escapeCall none] = .ok escapeProgram := by
  obtain ⟨budget, hbudget⟩ := Optimizer.budgetFor_eq_succ .standard (escapeCall none)
  rw [Optimizer.optimize, Optimizer.optimizeNode, hbudget, escapeCall,
    Optimizer.optimizeAt_call literals?_escapeArgument (by decide),
    Optimizer.optimizeCall_literals get?_escape rfl literals?_escapeArgument]
  rfl

/-- Where results are not kept, the call gets no key, and does not lose the one that it has. -/
theorem optimize_escapeCall_unkept (memo : Option MemoKey) :
    Optimizer.optimize .standard { keepResults := false } [escapeCall memo] =
      .ok [escapeCall memo] := by
  obtain ⟨budget, hbudget⟩ := Optimizer.budgetFor_eq_succ .standard (escapeCall memo)
  rw [Optimizer.optimize, Optimizer.optimizeNode, hbudget, escapeCall,
    Optimizer.optimizeAt_call literals?_escapeArgument (by decide),
    Optimizer.optimizeCall_literals get?_escape rfl literals?_escapeArgument]
  cases memo with
  | none => rfl
  | some key => rfl

/-- The engine that compiled the script and ran it once. -/
def escapeEngine : Engine := (freshEngine.run escapeProgram escapeSource).2

/-- The program is stored in the engine. -/
theorem stores_escapeCall : Stores .standard escapeEngine escapeProgram := by
  have hcompile : freshEngine.compile escapeSource = .ok escapeProgram :=
    compile_of_parse parse_escapeSource rfl optimize_escapeCall
  have hstored : (Bench.new .standard Environment.empty {}).after [.store escapeSource] =
      ⟨freshEngine, [escapeProgram]⟩ := by
    show (match freshEngine.compile escapeSource with
      | .ok p => ⟨freshEngine, [] ++ [p]⟩
      | .error _ => ⟨freshEngine, []⟩ : Bench) = _
    rw [hcompile]
    rfl
  have hafter : (Bench.new .standard Environment.empty {}).after
      [.store escapeSource, .run 0 escapeSource] =
      ⟨escapeEngine, [escapeProgram]⟩ :=
    congrArg (Bench.use · (.run 0 escapeSource)) hstored
  refine ⟨Environment.empty, {}, _, congrArg Bench.engine hafter, ?_⟩
  rw [hafter]
  exact List.mem_singleton.2 rfl

/-- A program of one statement has its value. -/
theorem eval_singleton (r : Registry) (limit : Nat) (n : Node) :
    Evaluator.eval r limit [n] = evalAt r limit 1 n := bind_pure _

/-- Where there is a level for the argument, the result is computed and kept. -/
theorem result_escapeCall {limit : Nat} (hlimit : 2 ≤ limit) {s : Session}
    (hs : s.memo[escapeKey]? = none) :
    ∃ s', (Evaluator.eval .standard limit escapeProgram).result s =
      (.ok (.string "\\."), s') ∧ s'.memo[escapeKey]? = some (.string "\\.") := by
  rw [escapeProgram, eval_singleton]
  exact kept_of_literals get?_escape literals?_escapeArgument rfl hlimit (fun _ => rfl) hs

/-- Where the result is kept, it is the value. -/
theorem result_escapeCall_kept {limit : Nat} (hlimit : 1 ≤ limit) {s : Session} {v : Value}
    (hs : s.memo[escapeKey]? = some v) :
    (Evaluator.eval .standard limit escapeProgram).result s = (.ok v, s) := by
  rw [escapeProgram, eval_singleton, escapeCall, evalAt_call_some hlimit, result_remember, hs]

/-- Where there is no level for the argument and the result is not kept, the argument is too deep. -/
theorem result_escapeCall_tooDeep {s : Session} (hs : s.memo[escapeKey]? = none) :
    ((Evaluator.eval .standard 1 escapeProgram).result s).1 =
      .error (.nestingTooDeep ⟨none, 1, 12⟩ 1) := by
  rw [escapeProgram, eval_singleton, escapeCall, evalAt_call_some (Nat.le_refl 1), result_remember, hs,
    evalCall_of_callee (callee_of_get? get?_escape _ rfl)]
  rfl

theorem run_forget_iff_escape :
    Registry.standard.Lawful ∧ Registry.standard.KeepsPlaces ∧
      Stores .standard escapeEngine escapeProgram ∧
      ((escapeEngine.setMaxDepth 2).run escapeProgram escapeSource).1 =
        ((escapeEngine.setMaxDepth 2).forget.run escapeProgram escapeSource).1 := by
  have hfound : (escapeEngine.setMaxDepth 2).found escapeProgram =
      (escapeEngine.setMaxDepth 2).forget.found escapeProgram := by
    have hdepth : depthAll escapeProgram ≤ 2 := Nat.le_refl 2
    exact (finds_eq_nil hdepth _).trans (finds_eq_nil hdepth _).symm
  exact ⟨Registry.lawful_standard, Registry.keepsPlaces_standard, stores_escapeCall,
    (run_forget_iff Registry.lawful_standard Registry.keepsPlaces_standard stores_escapeCall 2
      escapeSource).1.2 hfound⟩

/-- **A kept result hides that the limit was lowered.** After the script `reg_escape('.')` was run and
    the limit set to one, its program still has its value; once the kept results are forgotten, the
    argument is too deep. -/
theorem run_ne_run_forget :
    Stores .standard escapeEngine escapeProgram ∧
      ((escapeEngine.setMaxDepth 1).run escapeProgram escapeSource).1 =
        .ok (.string "\\.") ∧
      ((escapeEngine.setMaxDepth 1).forget.run escapeProgram escapeSource).1 =
        .error (Error.locate escapeSource (.runtime (.nestingTooDeep ⟨none, 1, 12⟩ 1))) := by
  have hnone : ∀ w, (Session.mk ∅ w).memo[escapeKey]? = none := fun _ => Std.HashMap.getElem?_empty
  obtain ⟨s', hs', hkept⟩ :=
    @result_escapeCall defaultMaxDepth (by decide) freshEngine.session (hnone _)
  have hengine : escapeEngine = { freshEngine with session := s' } :=
    congrArg Prod.snd (run_of_result hs' escapeSource)
  refine ⟨stores_escapeCall, ?_, ?_⟩
  · rw [hengine, run_of_result (result_escapeCall_kept (Nat.le_refl 1) hkept)]
    rfl
  · rw [hengine, outcome_run]
    exact congrArg (Except.mapError fun error => Error.locate escapeSource (.runtime error))
      (result_escapeCall_tooDeep (hnone s'.world))

end CallScript.Engine
