import CallScript.Proofs.Engine.Transcript
import CallScript.Proofs.Optimizer.Moves
import CallScript.Proofs.Run.Moves
import CallScript.Proofs.Token.Starts

/-!
# Scripts as tokens

Once a script is cut into tokens, its text and the name of its file serve to find errors and for nothing
else: what an engine makes of a script is what it makes of the tokens (`Engine.evalTokens`), with the
errors found in the text. And it makes the same of them wherever they stand.

* `compile_of_scan`, `eval_of_scan`: from the script to its tokens;
* `compileTokens_move`, `evalTokens_move`: if no function of the registry looks at places, programs,
  failures and sessions move along with the tokens.
-/

namespace CallScript

/-! ## 1. Causes that move -/

/-- The failure at the image of its place. -/
def LexError.move (σ : Place → Place) : LexError → LexError
  | unexpectedCharacter p c => .unexpectedCharacter (σ p) c
  | unterminatedString p => .unterminatedString (σ p)

namespace Error.Cause

variable (σ : Place → Place)

/-- The cause at the image of its place. -/
def move : Cause → Cause
  | lexical e => .lexical (e.move σ)
  | parse e => .parse (e.move σ)
  | compile e => .compile (e.move σ)
  | runtime e => .runtime (e.move σ)

theorem place_move (c : Cause) : (c.move σ).place = σ c.place := by
  cases c with
  | lexical e => cases e <;> rfl
  | parse e => cases e <;> rfl
  | compile e => cases e <;> rfl
  | runtime e => cases e <;> rfl

/-- A report does not say where something went wrong. -/
theorem code_move (c : Cause) : (c.move σ).code = c.code := by
  cases c with
  | lexical e => cases e <;> rfl
  | parse e => cases e <;> rfl
  | compile e => cases e <;> rfl
  | runtime e => cases e <;> rfl

theorem message_move (c : Cause) : (c.move σ).message = c.message := by
  cases c with
  | lexical e => cases e <;> rfl
  | parse e => cases e <;> rfl
  | compile e => cases e <;> rfl
  | runtime e => cases e <;> rfl

theorem exception?_move (c : Cause) :
    (c.move σ).exception? = c.exception?.map (Exception.move σ) := by
  cases c with
  | lexical e => rfl
  | parse e => rfl
  | compile e => cases e <;> rfl
  | runtime e => cases e <;> rfl

end Error.Cause

namespace Engine

variable {σ : Place → Place} {r : Registry} {o : Options} {ts : List Token} {e : Engine}
  {source : String}

/-! ## 2. From scripts to tokens -/

/-- What the tokens are compiled to. The options name a file, too, which is not looked at. -/
def compileTokens (r : Registry) (o : Options) (ts : List Token) : Except Error.Cause Program :=
  match Node.parse o.maxDepth ts with
  | .error e => .error (.parse e)
  | .ok program =>
    if o.optimize then
      (Optimizer.optimize r ⟨o.keepResults, true, o.maxDepth⟩ program).mapError .compile
    else .ok program

/-- What the tokens come to in a session, and the session that they leave. -/
def evalTokens (r : Registry) (o : Options) (ts : List Token) (s : Session) :
    Except Error.Cause Value × Session :=
  match compileTokens r o ts with
  | .error c => (.error c, s)
  | .ok program =>
    let (outcome, s) := (Evaluator.eval r o.maxDepth program).result s
    (outcome.mapError .runtime, s)

/-- A script that cannot be cut into tokens is refused for that. -/
theorem compile_of_scan_error {err : LexError} (h : Token.scan source e.options.file = .error err) :
    e.compile source = .error (Error.locate source (.lexical err)) := by
  unfold compile parse parseSource
  rw [h]

/-- **A script is compiled to what its tokens are compiled to.** -/
theorem compile_of_scan (h : Token.scan source e.options.file = .ok ts) :
    e.compile source = (compileTokens e.registry e.options ts).mapError (Error.locate source) := by
  unfold compile parse parseSource compileTokens
  rw [h]
  dsimp only
  cases Node.parse e.options.maxDepth ts with
  | error err => rfl
  | ok program =>
      dsimp only
      split
      · cases Optimizer.optimize e.registry _ program <;> rfl
      · rfl

/-- Only scripts that can be cut into tokens are compiled. -/
theorem exists_tokens_of_compile {p : Program} (h : e.compile source = .ok p) :
    ∃ ts, Token.scan source e.options.file = .ok ts ∧
      compileTokens e.registry e.options ts = .ok p := by
  cases hscan : Token.scan source e.options.file with
  | error err => cases h.symm.trans (compile_of_scan_error hscan)
  | ok ts =>
      rw [compile_of_scan hscan] at h
      exact ⟨ts, rfl, Evaluator.mapError_eq_ok h⟩

/-- An optimizing engine compiles tokens by reading them and optimizing what was read. -/
theorem compileTokens_eq_ok_iff (ho : o.optimize = true) {p : Program} :
    compileTokens r o ts = .ok p ↔ ∃ p₀, Node.parse o.maxDepth ts = .ok p₀ ∧
      Optimizer.optimize r ⟨o.keepResults, true, o.maxDepth⟩ p₀ = .ok p := by
  unfold compileTokens
  constructor
  · intro h
    cases hparse : Node.parse o.maxDepth ts with
    | error err =>
        rw [hparse] at h
        cases h
    | ok p₀ =>
        rw [hparse] at h
        dsimp only at h
        rw [if_pos ho] at h
        exact ⟨p₀, rfl, Evaluator.mapError_eq_ok h⟩
  · rintro ⟨p₀, hparse, hopt⟩
    rw [hparse]
    dsimp only
    rw [if_pos ho, hopt]
    rfl

/-- **A script comes to what its tokens come to.** -/
theorem eval_of_scan (h : Token.scan source e.options.file = .ok ts) :
    e.eval source =
      ((evalTokens e.registry e.options ts e.session).1.mapError (Error.locate source),
        { e with session := (evalTokens e.registry e.options ts e.session).2 }) := by
  have hcompile := compile_of_scan h
  unfold evalTokens
  cases hp : compileTokens e.registry e.options ts with
  | error c =>
      rw [hp] at hcompile
      exact eval_of_refused hcompile
  | ok program =>
      rw [hp] at hcompile
      rw [eval_of_compiled hcompile]
      rcases hs : (Evaluator.eval e.registry e.options.maxDepth program).result e.session with
        ⟨outcome, s⟩
      rw [run_of_result hs]
      dsimp only
      rw [hs]
      cases outcome <;> rfl

/-! ## 3. Tokens that move -/

/-- **The program that tokens are compiled to moves along with them**, or the failure does. -/
theorem compileTokens_move (hr : r.IgnoresPlaces) (h : ∃ t ∈ ts, t.kind = .eof) :
    compileTokens r o (ts.map (Token.move σ)) =
      mapBoth (Error.Cause.move σ) (List.map (Node.move σ)) (compileTokens r o ts) := by
  unfold compileTokens
  rw [Node.parse_move h]
  cases Node.parse o.maxDepth ts with
  | error e => rfl
  | ok program =>
      simp only [mapBoth_ok]
      split
      · rw [Optimizer.optimize_move hr]
        cases Optimizer.optimize r ⟨o.keepResults, true, o.maxDepth⟩ program <;> rfl
      · rfl

/-- **Tokens come to the same value wherever they stand**, or to the same failure at the image of its
    place, and they leave the same session. -/
theorem evalTokens_move (hr : r.IgnoresPlaces) (h : ∃ t ∈ ts, t.kind = .eof) (s : Session) :
    evalTokens r o (ts.map (Token.move σ)) s =
      ((evalTokens r o ts s).1.mapError (Error.Cause.move σ), (evalTokens r o ts s).2) := by
  unfold evalTokens
  rw [compileTokens_move hr h]
  cases compileTokens r o ts with
  | error c => rfl
  | ok program =>
      dsimp only [mapBoth_ok]
      rw [Evaluator.moves_eval hr program s]
      rcases (Evaluator.eval r o.maxDepth program).result s with ⟨e | v, t⟩
      · rfl
      · rfl

end Engine

end CallScript
