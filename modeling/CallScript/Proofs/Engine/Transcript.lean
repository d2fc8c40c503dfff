import CallScript.Engine
import CallScript.Proofs.Node.Grammar
import CallScript.Proofs.Optimizer.Soundness

/-!
# Scripts one after the other

An engine carries out operations (`Engine.Operation`): options are changed, services are installed, kept
results are forgotten, and scripts are run, some of which fail. Each script has an answer
(`Engine.Answer`): its value or its error, and the lines that it wrote.

What the scripts before it have left behind is of no account to a script.

* `Engine.Sound` is what every operation preserves (`Sound.perform`): what is kept is right, from
  whatever program, place or options it came;
* `perform_renew` compares one operation of a sound engine with the same operation of a new one;
* `transcript_eq_renewed` is the run: it gives the same answers to take a new engine with the same
  options before each operation.
-/

namespace CallScript.Engine

open Run Node

/-! ## 1. Operations -/

/-- What may be done with an engine. -/
inductive Operation
  | setOptimize (on : Bool)
  | setKeepResults (on : Bool)
  | setFile (file : String)
  | setMaxDepth (limit : Nat)
  | install (services : Services)
  | forget
  | eval (source : String)

/-- What comes of a script: its value or its error, and the lines that it wrote. -/
structure Answer where
  outcome : Except Error Value
  lines : List String

/-- The answer of a script, and the engine after it. -/
def answer (e : Engine) (source : String) : Answer × Engine :=
  let (outcome, e') := e.eval source
  (⟨outcome, e'.session.world.output.drop e.session.world.output.length⟩, e')

/-- Carries out an operation. Only scripts have an answer. -/
def perform (e : Engine) : Operation → List Answer × Engine
  | .setOptimize on => ([], e.setOptimize on)
  | .setKeepResults on => ([], e.setKeepResults on)
  | .setFile file => ([], e.setFile file)
  | .setMaxDepth limit => ([], e.setMaxDepth limit)
  | .install services => ([], e.withServices services)
  | .forget => ([], e.forget)
  | .eval source =>
    let (a, e) := e.answer source
    ([a], e)

/-- The answers of the scripts, in order. -/
def transcript (e : Engine) : List Operation → List Answer
  | [] => []
  | op :: ops => (e.perform op).1 ++ (e.perform op).2.transcript ops

/-- A new engine with the same registry, services and options. -/
def renew (e : Engine) : Engine := new e.registry e.services e.options

/-- The answers of the scripts, where each operation is carried out by a new engine. -/
def renewedTranscript (e : Engine) : List Operation → List Answer
  | [] => []
  | op :: ops => (e.renew.perform op).1 ++ (e.renew.perform op).2.renewedTranscript ops

/-! ## 2. What is kept between operations -/

/-- The registry is lawful, and every result that is kept is the one that the call gives. -/
structure Sound (e : Engine) : Prop where
  registry : e.registry.Lawful
  memo : Memo.Sound e.registry e.session.memo

/-- The session of a sound engine is like the session of a new one. -/
theorem Sound.alike_renew {e : Engine} (h : e.Sound) :
    Session.Alike e.registry e.services e.session.world.lines [] e.session e.renew.session :=
  Session.Alike.fresh h.memo

/-- Only what an engine is renewed from counts for answers of new engines. -/
theorem renewedTranscript_congr {e e' : Engine} (h : e.renew = e'.renew) (ops : List Operation) :
    e.renewedTranscript ops = e'.renewedTranscript ops := by
  cases ops with
  | nil => rfl
  | cons op ops =>
      show (e.renew.perform op).1 ++ (e.renew.perform op).2.renewedTranscript ops = _
      rw [h]
      rfl

/-! ## 3. Scripts -/

/-- The programs that an engine compiles are well keyed, whether they are optimized or not. -/
theorem wellKeyed_of_compile {e : Engine} (hr : e.registry.Lawful) {source : String} {p : Program}
    (h : e.compile source = .ok p) :
    ∀ n ∈ p, n.Every (WellKeyed e.registry e.options.maxDepth) 1 := by
  unfold compile parse parseSource at h
  cases hscan : Token.scan source e.options.file with
  | error err =>
      rw [hscan] at h
      cases h
  | ok tokens =>
    cases hparse : Node.parse e.options.maxDepth tokens with
    | error err =>
        simp only [hscan, hparse] at h
        cases h
    | ok program =>
      have hkey : ∀ n ∈ program, n.Every (WellKeyed e.registry e.options.maxDepth) 1 :=
        fun n hn => (unkeyed_of_parse hparse n hn).wellKeyed
      simp only [hscan, hparse] at h
      split at h
      · cases hopt : Optimizer.optimize e.registry
            ⟨e.options.keepResults, true, e.options.maxDepth⟩ program with
        | error err =>
            rw [hopt] at h
            cases h
        | ok program' =>
            rw [hopt] at h
            cases h
            exact (Optimizer.becomesProgram_optimize hopt).keyed hr hkey
      · cases h
        exact hkey

/-- A program that runs leaves everything but the session as it was. -/
theorem run_of_result {e : Engine} {p : Program} {outcome : Except RuntimeError Value} {s : Session}
    (h : (Evaluator.eval e.registry e.options.maxDepth p).result e.session = (outcome, s))
    (source : String) :
    e.run p source = (outcome.mapError fun error => Error.locate source (.runtime error),
      { e with session := s }) := by
  have h : (Evaluator.eval e.registry e.options.maxDepth p).run.run e.session = (outcome, s) := h
  unfold run
  rw [h]
  cases outcome with
  | error error => rfl
  | ok v => rfl

theorem eval_of_refused {e : Engine} {source : String} {error : Error}
    (h : e.compile source = .error error) : e.eval source = (.error error, e) := by
  unfold eval
  rw [h]

theorem eval_of_compiled {e : Engine} {source : String} {p : Program}
    (h : e.compile source = .ok p) : e.eval source = e.run p source := by
  unfold eval
  rw [h]

/-- **A script leaves everything but the session as it was,** and from sessions that are alike it comes
    to the same outcome and to sessions that are alike. -/
theorem eval_alike {e : Engine} (hr : e.registry.Lawful) {sv : Services} {a b : List String}
    {s t : Session} (h : Session.Alike e.registry sv a b s t) (source : String) :
    ∃ outcome s' t', { e with session := s }.eval source = (outcome, { e with session := s' }) ∧
      { e with session := t }.eval source = (outcome, { e with session := t' }) ∧
      Session.Alike e.registry sv a b s' t' := by
  -- compiling does not look at the session
  have hcompile : ∀ u : Session, { e with session := u }.compile source = e.compile source :=
    fun _ => rfl
  cases hp : e.compile source with
  | error error =>
      exact ⟨.error error, s, t, eval_of_refused ((hcompile s).trans hp),
        eval_of_refused ((hcompile t).trans hp), h⟩
  | ok p =>
      have hagree : Agrees e.registry (Evaluator.eval e.registry e.options.maxDepth p)
          (Evaluator.eval e.registry e.options.maxDepth p) :=
        Evaluator.agrees_evalFrom hr.functions p .null (wellKeyed_of_compile hr hp)
      obtain ⟨ho, hst⟩ := hagree sv a b s t h
      rcases hs : (Evaluator.eval e.registry e.options.maxDepth p).result s with ⟨outcome, s'⟩
      rcases ht : (Evaluator.eval e.registry e.options.maxDepth p).result t with ⟨outcome', t'⟩
      rw [hs, ht] at ho hst
      obtain rfl : outcome = outcome' := ho
      exact ⟨_, s', t', (eval_of_compiled ((hcompile s).trans hp)).trans (run_of_result hs source),
        (eval_of_compiled ((hcompile t).trans hp)).trans (run_of_result ht source), hst⟩

/-! ## 4. Operations -/

/-- **A script has the answer that a new engine gives to it,** and leaves a sound engine sound. -/
theorem Sound.answer {e : Engine} (h : e.Sound) (source : String) :
    (e.answer source).1 = (e.renew.answer source).1 ∧ (e.answer source).2.Sound ∧
      (e.answer source).2.renew = e.renew := by
  obtain ⟨outcome, s', t', hs, ht, hst⟩ := eval_alike h.registry h.alike_renew source
  have hs : e.eval source = (outcome, { e with session := s' }) := hs
  have ht : e.renew.eval source = (outcome, { e with session := t' }) := ht
  have hlines := hst.world.drop_output
  unfold Engine.answer
  rw [hs, ht]
  refine ⟨congrArg (Answer.mk outcome) ?_, ⟨h.registry, hst.left⟩, ?_⟩
  · show s'.world.output.drop (World.output _).length = t'.world.output.drop (World.output _).length
    unfold World.output at hlines ⊢
    rw [List.length_reverse, List.length_reverse]
    exact hlines
  · show new e.registry s'.world.services e.options = _
    rw [hst.world.left]
    rfl

/-- **An operation of a sound engine** has the answers that it has with a new engine, leaves the engine
    sound, and leads where it leads from a new engine. -/
theorem Sound.perform {e : Engine} (h : e.Sound) (op : Operation) :
    (e.perform op).1 = (e.renew.perform op).1 ∧ (e.perform op).2.Sound ∧
      (e.perform op).2.renew = (e.renew.perform op).2.renew := by
  cases op with
  | setOptimize on => exact ⟨rfl, ⟨h.registry, h.memo⟩, rfl⟩
  | setKeepResults on => exact ⟨rfl, ⟨h.registry, h.memo⟩, rfl⟩
  | setFile file => exact ⟨rfl, ⟨h.registry, h.memo⟩, rfl⟩
  | setMaxDepth limit => exact ⟨rfl, ⟨h.registry, h.memo⟩, rfl⟩
  | install services => exact ⟨rfl, ⟨h.registry, h.memo⟩, rfl⟩
  | forget => exact ⟨rfl, ⟨h.registry, Memo.sound_empty _⟩, rfl⟩
  | eval source =>
      obtain ⟨ha, hsound, hrenew⟩ := h.answer source
      have hnew : e.renew.Sound := ⟨h.registry, Memo.sound_empty _⟩
      obtain ⟨-, -, hrenew'⟩ := hnew.answer source
      exact ⟨congrArg (fun a => [a]) ha, hsound, hrenew.trans hrenew'.symm⟩

/-! ## 5. Runs -/

/-- **The answers of a sound engine are those of new engines,** over any operations. -/
theorem Sound.transcript_eq {e : Engine} (h : e.Sound) (ops : List Operation) :
    e.transcript ops = e.renewedTranscript ops := by
  induction ops generalizing e with
  | nil => rfl
  | cons op ops ih =>
      obtain ⟨hanswers, hsound, hrenew⟩ := h.perform op
      show (e.perform op).1 ++ (e.perform op).2.transcript ops =
        (e.renew.perform op).1 ++ (e.renew.perform op).2.renewedTranscript ops
      rw [hanswers, ih hsound, renewedTranscript_congr hrenew]

theorem sound_new {r : Registry} (hr : r.Lawful) (services : Services) (options : Options) :
    (new r services options).Sound := ⟨hr, Memo.sound_empty r⟩

/-- **Kept results cannot be observed.** Whatever is done with an engine of the standard registry, each
    script has the value or the error, and writes the lines, that it would have and write on a new
    engine with the options and the services of that moment. -/
theorem transcript_eq_renewed (services : Services) (options : Options) (ops : List Operation) :
    (new .standard services options).transcript ops =
      (new .standard services options).renewedTranscript ops :=
  (sound_new Registry.lawful_standard services options).transcript_eq ops

end CallScript.Engine
