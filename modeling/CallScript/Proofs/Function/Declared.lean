import CallScript.Evaluator
import CallScript.Proofs.Registry.Lookup

/-!
# Functions raise what they declare

The description of a function says which kinds of exceptions it may raise. Whoever calls a function
relies on it, and on the place of the exception being the one that was given with the call.

* `FaultsIn` bounds the kinds of the faults that a computation may come to. It is carried from the
  readers of flags, patterns, replacements, limits and keys to the computations that are put together
  from them;
* `declares_of_mem_builtins`: validation, execution and replacement of the functions of the language
  raise what is declared, whatever the arguments are;
* `raises_declared_only`: a watch that is kept over each call of a function, in the optimizer and in the
  evaluator, never has a reason to interfere.
-/

namespace CallScript.Function

open Exception (Kind)

/-! ## 1. Faults of a computation -/

/-- If the computation comes to a fault, it is of one of the kinds. -/
def FaultsIn {α : Type} (kinds : List Kind) (x : Except Fault α) : Prop :=
  ∀ fault, x = .error fault → fault.kind ∈ kinds

namespace FaultsIn

variable {α β : Type} {kinds : List Kind} {x : Except Fault α}

theorem ok (a : α) : FaultsIn kinds (.ok a) := nofun

theorem error {fault : Fault} (h : fault.kind ∈ kinds) :
    FaultsIn kinds (.error fault : Except Fault α) := by
  intro fault' heq
  cases heq
  exact h

theorem mono {more : List Kind} (hx : FaultsIn kinds x) (h : kinds ⊆ more) : FaultsIn more x :=
  fun fault hfault => h (hx fault hfault)

theorem bind {k : α → Except Fault β} (hx : FaultsIn kinds x) (hk : ∀ a, FaultsIn kinds (k a)) :
    FaultsIn kinds (x >>= k) := by
  cases x with
  | error fault => exact .error (hx fault rfl)
  | ok a => exact hk a

theorem map {f : α → β} (hx : FaultsIn kinds x) : FaultsIn kinds (x.map f) := by
  cases x with
  | error fault => exact .error (hx fault rfl)
  | ok a => exact .ok (f a)

/-- **An exception has the kind of the fault and the place of the call.** -/
theorem raised {place : Place} {e : Exception} (hx : FaultsIn kinds x)
    (h : raiseAt place x = .error e) : e.kind ∈ kinds ∧ e.place = place := by
  cases x with
  | error fault =>
      cases h
      exact ⟨hx fault rfl, rfl⟩
  | ok a => cases h

end FaultsIn

/-! ## 2. What is read from arguments -/

section

variable {args : List Node} {place : Place}

theorem faultsIn_toInteger (v : Value) : FaultsIn [.cast] v.toInteger := by
  unfold Value.toInteger
  split
  · exact .ok _
  · split
    · exact .ok _
    · exact .error (List.mem_singleton_self _)
  · exact .error (List.mem_singleton_self _)

/-- A limit that is not in order cannot be cast. -/
theorem faultsIn_cutsFor (limit : Option Value) : FaultsIn [.cast] (cutsFor limit) := by
  unfold cutsFor
  split
  · exact .ok _
  · exact .ok _
  · exact (faultsIn_toInteger _).bind fun _ => .ok _

theorem faultsIn_keyOf (v : Value) : FaultsIn [.cast] (keyOf v) := by
  unfold keyOf
  split
  · exact .ok _
  · exact .ok _
  · exact .error (List.mem_singleton_self _)

/-- A value is looked up in an array and under a key, or there is no cast; and the key may be missing. -/
theorem faultsIn_lookUp (vs : List Value) : FaultsIn [.cast, .indexOverflow] (lookUp vs) := by
  unfold lookUp
  split
  · refine ((faultsIn_keyOf _).mono (by simp)).bind fun key => ?_
    split
    · exact .ok _
    · exact .error (by simp [Fault.kind])
  · exact .error (by simp [Fault.kind])

theorem faultsIn_compileText (source : String) (flags : Pattern.Flags) :
    FaultsIn [.format] (compileText source flags) := by
  unfold compileText
  split
  · exact .ok _
  · exact .error (List.mem_singleton_self _)

theorem faultsIn_flagsOf (v : Value) : FaultsIn [.format] (flagsOf v) := by
  unfold flagsOf
  split
  · exact .ok _
  · exact .error (List.mem_singleton_self _)

/-- **Whatever value stands for a pattern**, only its format can be at fault. -/
theorem faultsIn_patternOf (v : Value) : FaultsIn [.format] (patternOf v) := by
  unfold patternOf
  split
  · split
    · exact .error (List.mem_singleton_self _)
    · dsimp only
      split
      · exact faultsIn_compileText _ _
      · exact faultsIn_compileText _ _
      · exact (faultsIn_flagsOf _).bind fun flags => faultsIn_compileText _ flags
  · exact faultsIn_compileText _ _

theorem faultsIn_replacementOf (text : String) (p : Pattern) :
    FaultsIn [.format] (replacementOf text p) := by
  unfold replacementOf
  split
  · exact .ok _
  · exact .error (List.mem_singleton_self _)

theorem faultsIn_literalPattern? (args : List Node) : FaultsIn [.format] (literalPattern? args) := by
  unfold literalPattern?
  split
  · exact .ok _
  · exact (faultsIn_patternOf _).map

theorem faultsIn_checkLiteralPattern : FaultsIn [.format] (checkLiteralPattern args place) :=
  (faultsIn_literalPattern? args).map

/-- What stands in for a replacement is given up only for the format of what was written. -/
theorem faultsIn_replaceRewrite : FaultsIn [.format] (replaceRewrite args place) := by
  refine (faultsIn_literalPattern? args).bind fun p? => ?_
  split
  · refine (faultsIn_replacementOf _ _).bind fun _ => ?_
    split
    · split
      · split
        · exact .error (List.mem_singleton_self _)
        · exact .ok _
      · exact .ok _
    · exact .ok _
  · exact .ok _

theorem faultsIn_splitRewrite : FaultsIn [.format] (splitRewrite args place) := by
  refine (faultsIn_literalPattern? args).bind fun p? => ?_
  split
  · split
    · exact .ok _
    · exact .ok _
  · exact .ok _

end

/-! ## 3. The functions of the language -/

/-- **The function raises what it declares**: whatever the arguments are, an exception is of a kind
    that the description lists, and it has the place that was given. -/
structure Declares (f : Function) : Prop where
  validate : ∀ args place e, f.validate args place = .error e →
    e.kind ∈ f.thrown ∧ e.place = place
  execute : ∀ args place w e, (f.execute args place w).1 = .error e →
    e.kind ∈ f.thrown ∧ e.place = place
  rewrite : ∀ args place e, f.rewrite args place = .error e →
    e.kind ∈ f.thrown ∧ e.place = place

/-- A function that only computes declares its faults. -/
theorem declares_ofPure {d : Description} {compute : List Value → Except Fault Value}
    {check : List Value → Except Fault Unit}
    {replace : List Node → Place → Except Fault (Option Node)}
    (hcompute : ∀ args, FaultsIn d.thrown (compute args))
    (hcheck : ∀ args, FaultsIn d.thrown (check args))
    (hreplace : ∀ args place, FaultsIn d.thrown (replace args place)) :
    (ofPure d compute check replace).Declares where
  validate args _ _ h := (hcheck args).raised h
  execute args _ _ _ h := (hcompute args).raised h
  rewrite args place _ h := (hreplace args place).raised h

/-- Without checks and replacements, only the computation has something to declare. -/
theorem declares_unchecked {d : Description} {compute : List Value → Except Fault Value}
    (h : ∀ args, FaultsIn d.thrown (compute args)) :
    (ofPure d compute noCheck noRewrite).Declares :=
  declares_ofPure h (fun _ => .ok ()) fun _ _ => .ok none

/-- A function that computes with a pattern and a subject declares the format of the pattern. -/
theorem declares_withPattern {d : Description} (hd : d.thrown = [.format])
    (compute : Pattern → Pattern.Subject → Value) :
    (ofPure d (withPattern compute) checkPattern checkLiteralPattern).Declares := by
  refine declares_ofPure (fun args => ?_) (fun args => ?_) fun args place => ?_
  · rw [hd]
    exact (faultsIn_patternOf _).bind fun _ => .ok _
  · rw [hd]
    exact (faultsIn_patternOf _).map
  · rw [hd]
    exact faultsIn_checkLiteralPattern

theorem declares_split : split.Declares :=
  declares_ofPure (fun _ => (faultsIn_cutsFor _).bind fun _ => .ok _)
    (fun _ => (faultsIn_cutsFor _).bind fun _ => .ok _) fun _ _ => .ok none

theorem declares_regReplace : regReplace.Declares :=
  declares_ofPure
    (fun _ => (faultsIn_patternOf _).bind fun _ => (faultsIn_replacementOf _ _).bind fun _ => .ok _)
    (fun _ => (faultsIn_patternOf _).bind fun _ => (faultsIn_replacementOf _ _).bind fun _ => .ok _)
    fun _ _ => faultsIn_replaceRewrite

/-- A split reads a pattern and a limit, so it declares the faults of both. -/
theorem declares_regSplit : regSplit.Declares := by
  have hpattern : ∀ v, FaultsIn [.format, .cast] (patternOf v) := fun v =>
    (faultsIn_patternOf v).mono (by simp)
  have hcuts : ∀ limit, FaultsIn [.format, .cast] (cutsFor limit) := fun limit =>
    (faultsIn_cutsFor limit).mono (by simp)
  exact declares_ofPure (fun _ => (hpattern _).bind fun _ => (hcuts _).bind fun _ => .ok _)
    (fun _ => (hpattern _).bind fun _ => (hcuts _).bind fun _ => .ok _)
    fun _ _ => faultsIn_splitRewrite.mono (by simp)

/-- The console raises nothing. -/
theorem declares_console : console.Declares where
  validate _ _ _ h := by cases h
  execute _ _ _ _ h := by cases h
  rewrite _ _ _ h := by cases h

/-- **The functions of the language raise what they declare.** -/
theorem declares_of_mem_builtins {f : Function} (hf : f ∈ Registry.builtins) : f.Declares := by
  simp only [Registry.builtins, List.mem_cons, List.not_mem_nil, or_false] at hf
  rcases hf with rfl | rfl | rfl | rfl | rfl | rfl | rfl | rfl | rfl | rfl | rfl
  · exact declares_unchecked fun _ => .ok _
  · exact declares_unchecked faultsIn_lookUp
  · exact declares_unchecked fun _ => .ok _
  · exact declares_split
  · exact declares_console
  · exact declares_withPattern rfl _
  · exact declares_withPattern rfl _
  · exact declares_regReplace
  · exact declares_regSplit
  · exact declares_withPattern rfl _
  · exact declares_unchecked fun _ => .ok _

/-! ## 4. Calls under watch -/

/-- What a call came to, with an alarm in the place of an exception of a kind that is not declared. -/
def watched {α : Type} (alarm : Exception → Exception) (kinds : List Kind) :
    Except Exception α → Except Exception α
  | .ok a => .ok a
  | .error e => if e.kind ∈ kinds then .error e else .error (alarm e)

/-- The function, with a watch over everything that it may raise. -/
def watch (alarm : Function → Exception → Exception) (f : Function) : Function where
  name := f.name
  arity := f.arity
  params := f.params
  docs := f.docs
  examples := f.examples
  thrown := f.thrown
  affinity := f.affinity
  treatments := f.treatments
  validate args place := watched (alarm f) f.thrown (f.validate args place)
  execute args place w :=
    (watched (alarm f) f.thrown (f.execute args place w).1, (f.execute args place w).2)
  rewrite args place := watched (alarm f) f.thrown (f.rewrite args place)

section

variable {alarm : Function → Exception → Exception} {f : Function}

/-- No alarm is noticed exactly where all exceptions are declared. -/
theorem watched_eq_iff {α : Type} {kinds : List Kind} {x : Except Exception α} :
    (∀ alarm, watched alarm kinds x = x) ↔ ∀ e, x = .error e → e.kind ∈ kinds := by
  constructor
  · rintro h e rfl
    refine Decidable.byContradiction fun hkind => ?_
    -- an alarm that moves the exception to another line is noticed
    have hmoved := h fun e => ⟨e.fault, ⟨e.place.file, e.place.line + 1, e.place.column⟩⟩
    simp only [watched, if_neg hkind] at hmoved
    have hline : e.place.line + 1 = e.place.line :=
      congrArg (fun e : Exception => e.place.line) (Except.error.inj hmoved)
    omega
  · intro h alarm
    cases x with
    | ok a => rfl
    | error e => exact if_pos (h e rfl)

/-- **A function that raises what it declares is not changed by the watch.** -/
theorem Declares.watch_eq (h : f.Declares) : f.watch alarm = f := by
  have hvalidate : ∀ args place,
      watched (alarm f) f.thrown (f.validate args place) = f.validate args place :=
    fun args place => watched_eq_iff.2 (fun e he => (h.validate args place e he).1) _
  have hexecute : ∀ args place w,
      watched (alarm f) f.thrown (f.execute args place w).1 = (f.execute args place w).1 :=
    fun args place w => watched_eq_iff.2 (fun e he => (h.execute args place w e he).1) _
  have hrewrite : ∀ args place,
      watched (alarm f) f.thrown (f.rewrite args place) = f.rewrite args place :=
    fun args place => watched_eq_iff.2 (fun e he => (h.rewrite args place e he).1) _
  unfold watch
  simp only [hvalidate, hexecute, hrewrite]

/-- The registry of the functions, each under watch. -/
def watchedRegistry (alarm : Function → Exception → Exception) (fs : List Function) : Registry :=
  Registry.empty.extend (fs.map (watch alarm))

theorem watchedRegistry_eq {fs : List Function} (h : ∀ f ∈ fs, f.Declares) :
    watchedRegistry alarm fs = Registry.empty.extend fs := by
  have hmap : fs.map (watch alarm) = fs :=
    (List.map_congr_left fun f hf => (h f hf).watch_eq).trans (List.map_id fs)
  exact congrArg Registry.empty.extend hmap

end

/-- **The functions of the standard registry raise what they declare, and where they were called.**
    For any arguments, of any number, an exception that comes from validation, execution or replacement
    is of a declared kind and has the place of the call. So a watch over the functions, whatever it
    does about a kind that is not declared, changes nothing: not what the optimizer makes of a program,
    and not what a run does to any session. -/
theorem raises_declared_only :
    (∀ name f, Registry.standard.get? name = some f → f.Declares) ∧
    ∀ (alarm : Function → Exception → Exception) (program : Program),
      (∀ o, Optimizer.optimize (watchedRegistry alarm Registry.builtins) o program =
        Optimizer.optimize .standard o program) ∧
      ∀ limit, Evaluator.eval (watchedRegistry alarm Registry.builtins) limit program =
        Evaluator.eval .standard limit program := by
  refine ⟨Registry.forall_standard fun f hf => declares_of_mem_builtins hf, ?_⟩
  intro alarm program
  have hwatch : watchedRegistry alarm Registry.builtins = .standard :=
    watchedRegistry_eq fun f hf => declares_of_mem_builtins hf
  rw [hwatch]
  exact ⟨fun _ => rfl, fun _ => rfl⟩

/-- A pattern array without a pattern in it is a matter of the format, and of the call that got it. -/
theorem raises_declared_only_patternMissing :
    Registry.standard.get? "reg_match" = some .regMatch ∧
      (regMatch.execute [Value.ofList []] default (.fresh .empty)).1 =
        .error ⟨.patternMissing, default⟩ ∧
      Fault.patternMissing.kind ∈ regMatch.thrown := by
  have hget : Registry.standard.get? "reg_match" = some .regMatch :=
    Registry.get?_name .regMatch (by simp [Registry.builtins])
  have hempty : (Table.ofList ([] : List Value)).get? (.index 0) = none :=
    congrArg (Option.bind · _) Std.HashMap.getElem?_empty
  have hpattern : patternOf (Value.ofList []) = .error .patternMissing := by
    simp only [patternOf, Value.ofList, hempty]
  have hraised : (regMatch.execute [Value.ofList []] default (.fresh .empty)).1 =
      .error ⟨.patternMissing, default⟩ := by
    show raiseAt default (patternOf (Value.ofList []) >>= _) = _
    rw [hpattern]
    rfl
  exact ⟨hget, hraised, ((raises_declared_only.1 _ _ hget).execute _ _ _ _ hraised).1⟩

end CallScript.Function
