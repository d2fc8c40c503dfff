import CallScript.Proofs.Engine.Moves
import CallScript.Proofs.Engine.Stored

/-!
# Layout does not matter

Two scripts with the same words may differ in spaces, comments and line ends, in the quotes and escapes of
their strings, and in the names of their files. An engine cannot tell them apart: they have the same
value and write the same lines, or they have errors that say the same and only stand elsewhere
(`Engine.Answer.Alike`).

The tokens of both scripts become the same when their places are forgotten, and an engine makes the
same of tokens wherever they stand.

* `eval_of_kinds` compares engines with any registry whose functions do not look at places;
* `answer_alike_of_kinds` is the result for new engines of the language.
-/

namespace CallScript

/-! ## 1. What two scripts may differ in -/

/-- The cause without its place. -/
def Error.Cause.unplaced (c : Cause) : Cause := c.move fun _ => default

/-- The errors have the same cause, apart from where it stands: their codes and their messages are the
    same, and so are the kinds of exceptions that were raised. -/
structure Error.SaysSame (e e' : Error) : Prop where
  cause : e.cause.unplaced = e'.cause.unplaced
  code : e.cause.code = e'.cause.code
  message : e.cause.message = e'.cause.message
  kind : e.cause.exception?.map Exception.kind = e'.cause.exception?.map Exception.kind

/-- Errors of the same cause say the same. -/
theorem Error.saysSame_of_cause {e e' : Error} (h : e.cause.unplaced = e'.cause.unplaced) :
    e.SaysSame e' := by
  have hkind : ∀ c : Cause, c.unplaced.exception?.map Exception.kind =
      c.exception?.map Exception.kind := by
    intro c
    unfold Cause.unplaced
    rw [Cause.exception?_move, Option.map_map]
    rfl
  refine ⟨h, ?_, ?_, ?_⟩
  · rw [← Cause.code_move (fun _ => default), ← Cause.code_move (fun _ => default) e'.cause]
    exact congrArg Cause.code h
  · rw [← Cause.message_move (fun _ => default), ← Cause.message_move (fun _ => default) e'.cause]
    exact congrArg Cause.message h
  · rw [← hkind e.cause, ← hkind e'.cause]
    exact congrArg (fun c => c.exception?.map Exception.kind) h

namespace Engine

/-- The same value, or errors that say the same. -/
inductive SameOutcome : Except Error Value → Except Error Value → Prop
  | value (v : Value) : SameOutcome (.ok v) (.ok v)
  | error {e e' : Error} (h : e.SaysSame e') : SameOutcome (.error e) (.error e')

/-- The same value or errors that say the same, and the same lines. -/
structure Answer.Alike (a a' : Answer) : Prop where
  outcome : SameOutcome a.outcome a'.outcome
  lines : a.lines = a'.lines

/-! ## 2. Tokens of the same kinds -/

/-- Tokens of the same kinds are the same tokens, once their places are forgotten. -/
theorem map_move_of_kinds {ts ts' : List Token} (h : ts.map Token.kind = ts'.map Token.kind)
    (p : Place) : ts.map (Token.move fun _ => p) = ts'.map (Token.move fun _ => p) := by
  have hforget : ∀ us : List Token,
      us.map (Token.move fun _ => p) = (us.map Token.kind).map (Token.mk · p) := by
    intro us
    rw [List.map_map]
    rfl
  rw [hforget, hforget, h]

/-- Outcomes that are the same without places are the same value, or errors that say the same. -/
theorem sameOutcome_of_unplaced {x x' : Except Error.Cause Value}
    (h : x.mapError Error.Cause.unplaced = x'.mapError Error.Cause.unplaced)
    (source source' : String) :
    SameOutcome (x.mapError (Error.locate source)) (x'.mapError (Error.locate source')) := by
  cases x with
  | error c =>
      obtain ⟨c', rfl, hc⟩ := Evaluator.mapError_eq_error h.symm
      exact .error (Error.saysSame_of_cause hc.symm)
  | ok v =>
      obtain rfl := Evaluator.mapError_eq_ok h.symm
      exact .value v

section

variable {o : Options} {file file' : Option String} {source source' : String}
  {ts ts' : List Token}

/-- **Scripts with the same words have the same outcome**, apart from where errors stand, and they leave
    the same session, from any session and with any options. -/
theorem eval_of_kinds {r : Registry} (hr : r.IgnoresPlaces) (s : Session)
    (h : Token.scan source file = .ok ts) (h' : Token.scan source' file' = .ok ts')
    (hkinds : ts.map Token.kind = ts'.map Token.kind) :
    SameOutcome ((⟨r, { o with file := file }, s⟩ : Engine).eval source).1
        ((⟨r, { o with file := file' }, s⟩ : Engine).eval source').1 ∧
      ((⟨r, { o with file := file }, s⟩ : Engine).eval source).2.session =
        ((⟨r, { o with file := file' }, s⟩ : Engine).eval source').2.session := by
  have hmove := @evalTokens_move (fun _ => default) r o ts hr (Token.exists_eof_of_scan h) s
  have hmove' := @evalTokens_move (fun _ => default) r o ts' hr (Token.exists_eof_of_scan h') s
  rw [map_move_of_kinds hkinds, hmove'] at hmove
  obtain ⟨houtcome, hsession⟩ := Prod.mk.inj hmove
  rw [@eval_of_scan ts ⟨r, { o with file := file }, s⟩ source h,
    @eval_of_scan ts' ⟨r, { o with file := file' }, s⟩ source' h']
  exact ⟨sameOutcome_of_unplaced houtcome.symm source source', hsession.symm⟩

/-- **Layout does not matter**: scripts whose tokens are of the same kinds have the same answer from new
    engines of the language with the same options, apart from the names of the files, and apart from
    where errors stand. The engines are left in the same session. -/
theorem answer_alike_of_kinds (services : Services) (h : Token.scan source file = .ok ts)
    (h' : Token.scan source' file' = .ok ts') (hkinds : ts.map Token.kind = ts'.map Token.kind) :
    ((new .standard services { o with file := file }).answer source).1.Alike
        ((new .standard services { o with file := file' }).answer source').1 ∧
      ((new .standard services { o with file := file }).answer source).2.session =
        ((new .standard services { o with file := file' }).answer source').2.session := by
  obtain ⟨houtcome, hsession⟩ := eval_of_kinds (o := o) Registry.ignoresPlaces_standard
    ⟨∅, World.fresh services⟩ h h' hkinds
  refine ⟨⟨houtcome, ?_⟩, hsession⟩
  exact congrArg (fun s : Session => s.world.output.drop (World.fresh services).output.length)
    hsession

end

/-- The call of `escapeSource` again, with a comment, line ends and other quotes. -/
def spacedSource : String := "# dot\nreg_escape (\t\x22.\x22 )\n"

theorem cuts_spacedSource : Token.Cuts ⟨some "b", 1, 1⟩ spacedSource.toList
    [⟨.ident "reg_escape", ⟨some "b", 2, 1⟩⟩, ⟨.leftParen, ⟨some "b", 2, 12⟩⟩,
      ⟨.string ".", ⟨some "b", 2, 14⟩⟩, ⟨.rightParen, ⟨some "b", 2, 18⟩⟩] := by
  have hname : Token.IsName "reg_escape".toList :=
    ⟨'r', _, rfl, rfl, List.all_eq_true.1 rfl⟩
  have hdot : Token.Writes (.string ".") ['\x22', '.', '\x22'] :=
    .string rfl (.plain '.' (by decide) (by decide) .nil)
  have hbody : ∀ c ∈ " dot".toList, Token.isLineEnd c = false :=
    fun c hc => Bool.eq_false_iff.2 (List.any_eq_false.1 rfl c hc)
  refine @Token.Cuts.comment _ " dot".toList _ _ hbody ?_ (.space rfl ?_)
  · rintro c ⟨⟩
    rfl
  refine @Token.Cuts.token _ "reg_escape".toList _ _ _ (.word hname) ?_ (.space rfl ?_)
  · rintro c ⟨⟩
    rfl
  refine @Token.Cuts.token _ ['('] _ _ _ (.punctuation rfl) (fun _ _ => rfl) (.space rfl ?_)
  refine @Token.Cuts.token _ ['\x22', '.', '\x22'] _ _ _ hdot (fun _ _ => rfl) (.space rfl ?_)
  exact @Token.Cuts.token _ [')'] _ _ _ (.punctuation rfl) (fun _ _ => rfl) (.space rfl (.stop _))

theorem answer_alike_of_kinds_spaced :
    ∃ ts ts', Token.scan escapeSource none = .ok ts ∧ Token.scan spacedSource (some "b") = .ok ts' ∧
      ts.map Token.kind = ts'.map Token.kind ∧
      ((new .standard Environment.empty {}).answer escapeSource).1.Alike
        ((new .standard Environment.empty { file := some "b" }).answer spacedSource).1 := by
  have hplain : Token.scan escapeSource none = .ok _ := Token.scanFrom_of_cuts cuts_escapeSource _
  have hspaced : Token.scan spacedSource (some "b") = .ok _ :=
    Token.scanFrom_of_cuts cuts_spacedSource _
  exact ⟨_, _, hplain, hspaced, rfl,
    (answer_alike_of_kinds (o := {}) Environment.empty hplain hspaced rfl).1⟩

end Engine

end CallScript
