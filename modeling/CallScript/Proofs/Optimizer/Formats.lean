import CallScript.Proofs.Function.Declared
import CallScript.Proofs.Function.Matches
import CallScript.Proofs.Optimizer.Completeness
import CallScript.Proofs.Optimizer.Preserved
import CallScript.Proofs.Optimizer.Settled
import CallScript.Proofs.Pattern.PlainReplacement
import CallScript.Proofs.Text.Decimal

/-!
# Malformed patterns do not get past the optimizer

Where the patterns of a program are written as literals, and the replacements of `reg_replace` as well
(`Node.LiteralPatterns`), the optimizer reads them all, whatever the other arguments are: the functions
on patterns read a literal pattern when they are asked for a replacement of their call. So what it
accepts raises no format exception.

* `execute_ne_format` goes through the functions: a call that is not replaced and whose pattern is
  written as a literal raises no format exception, whatever its other arguments come to;
* `preserved_literalPatterns`: no replacement of a call brings in a pattern that is not a literal;
* `avoids_format_of_optimize`: an accepted program raises no format exception, in any session and with
  any limit on its levels.
-/

namespace CallScript

open Node (FitAll literals? EveryIn)

/-! ## 1. Patterns that are written as literals -/

/-- The functions that take a pattern. -/
def Function.onPatterns : List Function := [.regMatch, .regMatchAll, .regReplace, .regSplit, .regCount]

namespace Node

/-- If there is an argument at the position, it is written as a literal. -/
def LiteralAt (args : List Node) (i : Nat) : Prop :=
  ∀ n, args[i]? = some n → ∃ v p, n = .literal v p

/-- The pattern of a call is written as a literal, and so is the replacement of `reg_replace`. -/
def LiteralPatterns (_ : Nat) : Node → Prop
  | .literal _ _ => True
  | .call name _ args _ =>
    (name ∈ Function.onPatterns.map Function.name → LiteralAt args 0) ∧
      (name = "reg_replace" → LiteralAt args 1)

theorem LiteralAt.exists_literal {args : List Node} {i : Nat} (h : LiteralAt args i)
    (hi : i < args.length) : ∃ v p, args[i]? = some (.literal v p) := by
  have hget := List.getElem?_eq_getElem hi
  obtain ⟨v, p, hv⟩ := h args[i] hget
  exact ⟨v, p, hget.trans (congrArg some hv)⟩

/-- A literal argument has its own value. -/
theorem LiteralAt.arg {args : List Node} {vs : List Value} {i : Nat} (h : LiteralAt args i)
    (hi : i < args.length) (hfit : FitAll args vs) :
    ∃ v p, args[i]? = some (.literal v p) ∧ Function.arg vs i = v.toValue := by
  obtain ⟨v, p, hget⟩ := h.exists_literal hi
  refine ⟨v, p, hget, Function.arg_of_fitAll hfit i ?_⟩
  rw [hget]
  rfl

end Node

/-! ## 2. Replacements without references -/

namespace Pattern.Segment

/-- A text without backslashes and references is read as it stands. -/
theorem parse_of_plain {count : Nat} {find? : String → Option Nat} {s : List Char}
    (h : ∀ c ∈ s, c ≠ '\\' ∧ c ≠ '$') : ∃ segments, parse count find? s = .ok segments := by
  induction s with
  | nil =>
      rw [parse]
      exact ⟨[], rfl⟩
  | cons c s ih =>
      obtain ⟨⟨hslash, hdollar⟩, hs⟩ := List.forall_mem_cons.1 h
      obtain ⟨segments, hrest⟩ := ih hs
      rw [parse_plain hslash hdollar, hrest]
      exact ⟨_, rfl⟩

end Pattern.Segment

/-- The text of an integer has neither backslashes nor references. -/
theorem Decimal.plain_render (n : Int64) : ∀ c ∈ (render n).toList, c ≠ '\\' ∧ c ≠ '$' := by
  have hdigit : ∀ {c : Char}, c.isDigit = true → c ≠ '\\' ∧ c ≠ '$' := by
    rintro c hc
    constructor
    · rintro rfl
      cases hc
    · rintro rfl
      cases hc
  obtain ⟨ds, ⟨-, hds⟩, htext | htext⟩ := numeral_render n
  · rw [htext]
    exact fun c hc => hdigit (hds c hc)
  · rw [htext]
    exact List.forall_mem_cons.2 ⟨⟨by decide, by decide⟩, fun c hc => hdigit (hds c hc)⟩

namespace Function

/-- **A literal that is no text is a replacement for every pattern.** -/
theorem replacementOf_render {v : Literal} (hv : ∀ s, v ≠ .string s) (p : Pattern) :
    ∃ r, replacementOf v.toValue.render p = .ok r := by
  have hplain : ∀ c ∈ v.toValue.render.toList, c ≠ '\\' ∧ c ≠ '$' := by
    cases v with
    | string s => exact absurd rfl (hv s)
    | integer n => exact Decimal.plain_render n
    | null => simp [Literal.toValue, Value.render]
  obtain ⟨segments, h⟩ := Pattern.Segment.parse_of_plain hplain
  refine ⟨⟨segments⟩, ?_⟩
  unfold replacementOf Pattern.Replacement.parse
  rw [h]
  rfl

/-! ## 3. Computations without format faults -/

/-- If the computation comes to a fault, it is not one of a format. -/
def NoFormat {α : Type} (x : Except Fault α) : Prop := ∀ fault, x = .error fault → fault.kind ≠ .format

theorem NoFormat.ok {α : Type} (a : α) : NoFormat (.ok a) := nofun

theorem NoFormat.bind {α β : Type} {x : Except Fault α} {k : α → Except Fault β} (hx : NoFormat x)
    (hk : ∀ a, x = .ok a → NoFormat (k a)) : NoFormat (x >>= k) := by
  cases x with
  | error fault =>
      intro fault' h
      cases h
      exact hx fault rfl
  | ok a => exact hk a rfl

/-- Faults of other kinds are not faults of a format. -/
theorem FaultsIn.noFormat {α : Type} {kinds : List Exception.Kind} {x : Except Fault α}
    (hx : FaultsIn kinds x) (h : .format ∉ kinds) : NoFormat x := by
  intro fault hfault hkind
  exact h (hkind ▸ hx fault hfault)

theorem noFormat_cutsFor (limit : Option Value) : NoFormat (cutsFor limit) :=
  (faultsIn_cutsFor limit).noFormat (by decide)

theorem noFormat_lookUp (vs : List Value) : NoFormat (lookUp vs) :=
  (faultsIn_lookUp vs).noFormat (by decide)

/-! ## 4. The functions -/

/-- The functions that take a pattern take another argument with it. -/
theorem two_le_of_accepts {f : Function} (hf : f ∈ onPatterns) {count : Nat}
    (ha : f.arity.accepts count = true) : 2 ≤ count := by
  have hfixed : ∀ n : UInt8, (Arity.fixed n).accepts count = true → count = n.toNat := by
    intro n h
    exact of_decide_eq_true h
  simp only [onPatterns, List.mem_cons, List.not_mem_nil, or_false] at hf
  rcases hf with rfl | rfl | rfl | rfl | rfl
  · exact Nat.le_of_eq (hfixed 2 ha).symm
  · exact Nat.le_of_eq (hfixed 2 ha).symm
  · exact Nat.le_trans (Nat.le_succ 2) (Nat.le_of_eq (hfixed 3 ha).symm)
  · have ha : (decide (2 ≤ count) && decide (count ≤ 3)) = true := ha
    exact of_decide_eq_true (Bool.and_eq_true_iff.1 ha).1
  · exact Nat.le_of_eq (hfixed 2 ha).symm

/-- A fault that a call raises is one that its computation came to. -/
theorem raiseAt_eq_error {α : Type} {x : Except Fault α} {p : Place} {e : Exception}
    (h : raiseAt p x = .error e) : x = .error e.fault := by
  cases x with
  | ok a => cases h
  | error fault =>
      cases h
      rfl

section

variable {args : List Node} {vs : List Value} {p : Place}

/-- A call with a literal pattern that was read has that pattern. -/
theorem patternOf_of_literalPattern? {m? : Option Pattern} (hlit : Node.LiteralAt args 0)
    (hlen : 0 < args.length) (hfit : FitAll args vs) (h : literalPattern? args = .ok m?) :
    ∃ q, patternOf (arg vs 0) = .ok q ∧ m? = some q := by
  obtain ⟨v, q, hget, harg⟩ := hlit.arg hlen hfit
  cases args with
  | nil => cases hget
  | cons n ns =>
      cases hget
      rw [harg]
      exact literalPattern?_cons h

/-- A function that computes with a pattern and a subject has no other faults than its pattern has. -/
theorem noFormat_withPattern (compute : Pattern → Pattern.Subject → Value)
    (hlit : Node.LiteralAt args 0) (hlen : 0 < args.length) (hfit : FitAll args vs)
    (h : checkLiteralPattern args p = .ok none) : NoFormat (withPattern compute vs) := by
  have hread : ∃ m?, literalPattern? args = .ok m? := by
    unfold checkLiteralPattern at h
    cases hm : literalPattern? args with
    | error fault =>
        rw [hm] at h
        cases h
    | ok m? => exact ⟨m?, rfl⟩
  obtain ⟨m?, hm⟩ := hread
  obtain ⟨q, hq, -⟩ := patternOf_of_literalPattern? hlit hlen hfit hm
  rw [withPattern_of_patternOf compute hq]
  exact .ok _

/-- A split has no other faults than its pattern and its limit have. -/
theorem noFormat_regSplit (hlit : Node.LiteralAt args 0) (hlen : 0 < args.length)
    (hfit : FitAll args vs) (h : splitRewrite args p = .ok none) :
    NoFormat (do
      let q ← patternOf (arg vs 0)
      let cuts ← cutsFor vs[2]?
      pure (textsValue (splitAtMatches q cuts (subjectOf vs 1)))) := by
  obtain ⟨m?, hm, -⟩ := bind_eq_ok h
  obtain ⟨q, hq, -⟩ := patternOf_of_literalPattern? hlit hlen hfit hm
  rw [hq]
  exact (noFormat_cutsFor _).bind fun _ _ => .ok _

/-- A replacement has no other faults than its pattern and its text have; a text that is written as one
    was read for the pattern. -/
theorem noFormat_regReplace (hlit : Node.LiteralAt args 0) (hlit' : Node.LiteralAt args 1)
    (hlen : 1 < args.length) (hfit : FitAll args vs) (h : replaceRewrite args p = .ok none) :
    NoFormat (do
      let q ← patternOf (arg vs 0)
      let r ← replacementOf (arg vs 1).render q
      pure (textValue (r.replaceAll q (subjectOf vs 2)))) := by
  obtain ⟨m?, hm, h⟩ := bind_eq_ok h
  obtain ⟨q, hq, rfl⟩ := patternOf_of_literalPattern? hlit (by omega) hfit hm
  obtain ⟨v, p', hget, harg⟩ := hlit'.arg hlen hfit
  have hread : ∃ r, replacementOf v.toValue.render q = .ok r := by
    cases v with
    | string text =>
        rw [hget] at h
        obtain ⟨r, hr, -⟩ := bind_eq_ok h
        exact ⟨r, hr⟩
    | integer n => exact replacementOf_render (fun _ h => by cases h) q
    | null => exact replacementOf_render (fun _ h => by cases h) q
  obtain ⟨r, hr⟩ := hread
  rw [hq, harg]
  simp only [bind, Except.bind, hr]
  exact .ok _

/-- **A call that the optimizer leaves as it is raises no format exception**, if its pattern and its
    replacement are written as literals. -/
theorem execute_ne_format {f : Function} (hf : f ∈ Registry.builtins) {d : Nat} {q : Place}
    {memo : Option MemoKey} (hlit : Node.LiteralPatterns d (.call f.name q args memo))
    (ha : f.arity.accepts args.length = true) (hm : Optimizer.replacement? f p args = .ok none)
    (hfit : FitAll args vs) {w : World} {e : Exception}
    (h : (f.execute vs p w).1 = .error e) : e.kind ≠ .format := by
  obtain ⟨hpattern, hreplacement⟩ := hlit
  simp only [Registry.builtins, List.mem_cons, List.not_mem_nil, or_false] at hf
  rcases hf with rfl | rfl | rfl | rfl | rfl | rfl | rfl | rfl | rfl | rfl | rfl
  case inl => cases h
  case inr.inl => exact noFormat_lookUp vs _ (raiseAt_eq_error h)
  case inr.inr.inl => cases h
  case inr.inr.inr.inl =>
    exact (noFormat_cutsFor _).bind (fun _ _ => .ok _) _ (raiseAt_eq_error h)
  case inr.inr.inr.inr.inl => cases h
  case inr.inr.inr.inr.inr.inr.inr.inr.inr.inr => cases h
  -- the functions on patterns
  all_goals
    have hmem := hpattern (by simp [onPatterns])
    have hlen := two_le_of_accepts (by simp [onPatterns]) ha
    have hm := raiseAt_eq_ok (Optimizer.raised_eq_ok hm)
    have h := raiseAt_eq_error h
  case inr.inr.inr.inr.inr.inr.inr.inl =>
    exact noFormat_regReplace hmem (hreplacement rfl) (by omega) hfit hm _ h
  case inr.inr.inr.inr.inr.inr.inr.inr.inl =>
    exact noFormat_regSplit hmem (by omega) hfit hm _ h
  all_goals exact noFormat_withPattern _ hmem (by omega) hfit hm _ h

end

end Function

/-! ## 5. What the optimizer does to patterns -/

namespace Optimizer

open Evaluator Run Node

variable {o : Options}

/-- A literal argument stays where it is. -/
theorem BecomeAll.literalAt {r : Registry} {args args' : List Node} {d i : Nat}
    (h : BecomeAll r o d args args') (hlit : LiteralAt args i) : LiteralAt args' i := by
  intro n hn
  have hi : i < args.length := h.length_eq ▸ (List.getElem?_eq_some_iff.1 hn).1
  obtain ⟨v, p, hget⟩ := hlit.exists_literal hi
  exact ⟨v, p, Option.some.inj (hn.symm.trans (h.getElem?_literal hget))⟩

/-- **The optimizer keeps patterns literal**: what a call is replaced by takes no pattern. -/
theorem preserved_literalPatterns : Preserved .standard o LiteralPatterns := by
  refine preserved_standard (fun _ hargs h => ?_) (fun _ _ _ => trivial) fun _ name _ _ hname => ?_
  · exact ⟨fun hmem => hargs.literalAt (h.1 hmem), fun hreplace => hargs.literalAt (h.2 hreplace)⟩
  · rcases hname with rfl | rfl
    · exact ⟨fun h => absurd h (by decide), fun h => absurd h (by decide)⟩
    · exact ⟨fun h => absurd h (by decide), fun h => absurd h (by decide)⟩

end Optimizer

/-! ## 6. Runs -/

/-- The failure is a format exception. -/
def RuntimeError.IsFormat (e : RuntimeError) : Prop := ∃ x, e = .exception x ∧ x.kind = .format

namespace Evaluator

open Run Node RuntimeError

variable {r : Registry} {limit d : Nat} {name : String} {p : Place}

/-- Looking up a function raises nothing. -/
theorem avoids_isFormat_callee (count : Nat) : Avoids IsFormat (callee r p name count) := by
  refine avoids_callee ?_ fun a => ?_
  · rintro ⟨x, hx, -⟩
    cases hx
  · rintro ⟨x, hx, -⟩
    cases hx

/-- The work of a call fails with what its function raises. -/
theorem avoids_isFormat_execute {f : Function} {vs : List Value}
    (h : ∀ w e, (f.execute vs p w).1 = .error e → e.kind ≠ .format) :
    Avoids IsFormat (execute f name vs p) := by
  rintro s e s' he ⟨x, rfl, hx⟩
  rw [result_execute] at he
  obtain ⟨e', he', hcause⟩ := mapError_eq_error (Prod.mk.inj he).1
  cases hcause
  exact h _ _ he' hx

/-- A call whose arguments raise no format exception raises none, if its function raises none with
    values that the arguments may have. -/
theorem avoids_isFormat_evalCall {args : List Node}
    (hargs : Avoids IsFormat (evalAllAt r limit (d + 1) args))
    (h : ∀ f, r.get? name = some f → f.arity.accepts args.length = true →
      ∀ vs w e, FitAll args vs → (f.execute vs p w).1 = .error e → e.kind ≠ .format) :
    Avoids IsFormat (evalCall r limit d name p args) := by
  rcases callee_cases r p name args.length with ⟨f, hf, ha, hc⟩ | ⟨e, hc⟩
  · rw [evalCall_of_callee hc]
    intro s e s' he
    rcases result_bind_eq_error he with he | ⟨vs, t, hvs, he⟩
    · exact hargs s e s' he
    · have hfit := Optimizer.fitAll_of_result args hvs
      exact avoids_isFormat_execute (fun w x hx => h f hf ha vs w x hfit hx) t e s' he
  · have hcallee : Avoids IsFormat (callee r p name args.length) := avoids_isFormat_callee _
    rw [hc] at hcallee
    rw [evalCall_of_refused hc]
    intro s e' s' he
    cases he
    exact hcallee s e s rfl

theorem avoids_isFormat_of_lt (h : limit < d) (n : Node) :
    Avoids IsFormat (evalAt r limit d n) := by
  rw [evalAt_of_lt h]
  refine .throw ?_
  rintro ⟨x, hx, -⟩
  cases hx

end Evaluator

namespace Optimizer

open Evaluator Run Node RuntimeError

variable {o : Options} {limit : Nat}

mutual

/-- **A settled expression with literal patterns raises no format exception.** The induction is on the
    expression; a result that is kept is a value, so the memo keys do not matter. -/
theorem avoids_isFormat_evalAt : ∀ (n : Node) {d : Nat}, Settled .standard o d n →
    n.Every LiteralPatterns d → Avoids IsFormat (evalAt .standard limit d n)
  | .literal v p, d, _, _ => by
      by_cases hd : limit < d
      · exact avoids_isFormat_of_lt hd _
      · rw [evalAt_literal (Nat.not_lt.1 hd)]
        exact .pure _
  | .call name p args memo, d, ⟨⟨_, f, hf, ha, _, hm, _⟩, hargs⟩, ⟨hlit, hlits⟩ => by
      by_cases hd : limit < d
      · exact avoids_isFormat_of_lt hd _
      · have hcall : Avoids IsFormat (evalCall .standard limit d name p args) := by
          refine avoids_isFormat_evalCall (avoids_isFormat_evalAllAt args hargs hlits) ?_
          intro g hg _ vs w e hfit he
          obtain rfl : f = g := Option.some.inj (hf.symm.trans hg)
          obtain ⟨hmem, rfl⟩ := Registry.mem_builtins hf
          exact Function.execute_ne_format hmem hlit ha hm hfit he
        cases memo with
        | none =>
            rw [evalAt_call_none (Nat.not_lt.1 hd)]
            exact hcall
        | some key =>
            rw [evalAt_call_some (Nat.not_lt.1 hd)]
            exact avoids_remember hcall

theorem avoids_isFormat_evalAllAt : ∀ (ns : List Node) {d : Nat}, AllSettled .standard o d ns →
    EveryIn LiteralPatterns d ns → Avoids IsFormat (evalAllAt .standard limit d ns)
  | [], _, _, _ => .pure _
  | n :: ns, _, hn, hlit =>
      (avoids_isFormat_evalAt n hn.1 hlit.1).bind fun _ =>
        (avoids_isFormat_evalAllAt ns hn.2 hlit.2).bind fun _ => .pure _

end

/-- **Malformed literal patterns do not get past the optimizer**: if the patterns of a program are
    written as literals, and the replacements of `reg_replace` as well, then the program that the
    optimizer makes of it raises no format exception, whatever services the host offers, whatever
    results are kept and whatever limit there is on levels. -/
theorem avoids_format_of_optimize {p q : Program} (hp : ∀ n ∈ p, n.Every LiteralPatterns 1)
    (h : optimize .standard o p = .ok q) (limit : Nat) :
    Avoids IsFormat (eval .standard limit q) := by
  have hlit := (becomesProgram_optimize h).every preserved_literalPatterns hp
  rw [← optimizeBy_budgetFor] at h
  have hsettled := (settledProgram_optimizeBy h).1.settled
  unfold eval
  rw [evalFrom_eq]
  refine Avoids.bind ?_ fun _ => .pure _
  exact avoids_isFormat_evalAllAt q (everyIn_iff.2 hsettled) (everyIn_iff.2 hlit)

/-- A call `reg_replace('a*', 1, console('banana'))`, with the subject to be computed. -/
def dynamicReplace : Node :=
  .call "reg_replace" default
    [.literal (.string "a*") default, .literal (.integer 1) default,
      .call "console" default [.literal (.string "banana") default] none] none

theorem avoids_format_of_optimize_dynamic :
    (∀ n ∈ [dynamicReplace], n.Every LiteralPatterns 1) ∧
      optimize .standard {} [dynamicReplace] = .ok [dynamicReplace] ∧
      Avoids IsFormat (eval .standard 128 [dynamicReplace]) := by
  obtain ⟨p, hp, -⟩ := Function.patternOf_star
  have hconsole : Registry.standard.get? "console" = some .console :=
    Registry.get?_name .console (by simp [Registry.builtins])
  have hlit : ∀ n ∈ [dynamicReplace], n.Every LiteralPatterns 1 := by
    have hnot : "console" ∉ Function.onPatterns.map Function.name := by decide
    refine List.forall_mem_singleton.2 ⟨⟨fun _ n hn => ?_, fun _ n hn => ?_⟩, ?_⟩
    · exact ⟨_, _, (Option.some.inj hn).symm⟩
    · exact ⟨_, _, (Option.some.inj hn).symm⟩
    · have hcall : LiteralPatterns 2 dynamicReplace.args[2] :=
        ⟨fun h => absurd h hnot, fun h => absurd h (by decide)⟩
      exact ⟨trivial, trivial, ⟨hcall, trivial, trivial⟩, trivial⟩
  -- the pattern is read, and a replacement that is no text is left for the run
  have hread : replacement? .regReplace default dynamicReplace.args = .ok none := by
    show raised (Function.raiseAt default (Function.replaceRewrite _ default)) = _
    unfold Function.replaceRewrite Function.literalPattern?
    have hpattern : dynamicReplace.args.head?.bind literal? = some (.string "a*") := rfl
    rw [hpattern]
    dsimp only [Literal.toValue]
    rw [hp]
    rfl
  have hsettled : Settled .standard {} 1 dynamicReplace := by
    refine ⟨⟨by decide, .regReplace, Registry.get?_regReplace, rfl, rfl, hread, rfl⟩, ?_⟩
    refine ⟨⟨by decide, trivial⟩, ⟨by decide, trivial⟩, ⟨⟨by decide, ?_⟩, ?_⟩, trivial⟩
    · exact ⟨.console, hconsole, rfl, rfl, rfl, rfl⟩
    · exact ⟨⟨by decide, trivial⟩, trivial⟩
  have hopt := optimize_of_settledProgram (.last hsettled)
  exact ⟨hlit, hopt, avoids_format_of_optimize hlit hopt 128⟩

end Optimizer

end CallScript
