import CallScript.Proofs.Optimizer.Soundness
import CallScript.Proofs.Run.Effects

/-!
# Optimized programs have the same effects

No effect is dropped, done twice or moved by the optimizer, in a registry that extends the standard
one: an expression that has a value and effects still has them when it is optimized.

* `Becomes.yields` is the induction on how the optimizer came to its output: a replacement does not
  touch the effects of its arguments, and it has none of its own (`Registry.StandsIn`);
* `BecomesProgram.yields`: a statement that is left out has no effects;
* `effects_of_optimize` is the result for programs, whatever levels are accepted when they run.
-/

namespace CallScript

open Node

variable {r : Registry}

/-! ## 1. Replacements -/

/-- **The expression may stand in for the call**: it has the value and the effects of the call, and
    its memo keys are its own if those of the arguments are. -/
structure Registry.StandsIn (r : Registry) (name : String) (p : Place) (args : List Node)
    (m : Node) : Prop where
  keyed : ∀ d, EveryIn (fun _ => OwnKeyed r) (d + 1) args → m.Every (fun _ => OwnKeyed r) d
  yields : ∀ memo v xs, Yields r (.call name p args memo) v xs → Yields r m v xs

namespace Registry

theorem ownKeyed_of_memo?_eq_none {n : Node} (h : n.memo? = none) : OwnKeyed r n := by
  intro key hkey
  rw [h] at hkey
  cases hkey

/-- A replacement becomes the one of plain text. The subject moves to the front, and the literals
    around it have no effects. -/
theorem standsIn_regReplace (hreplace : r.get? "replace" = some .replace) {name : String}
    (hf : r.get? name = some .regReplace) {args : List Node} {p : Place} {m : Node}
    (hm : Function.replaceRewrite args p = .ok (some m)) : r.StandsIn name p args m := by
  obtain ⟨source, q, text, q', subject, plain, expanded, pattern, replacement, rfl, hs, hne, hp, hr,
    he, rfl⟩ := Function.replaceRewrite_eq_some hm
  have hnone : ∀ vs, r.effects [⟨name, vs⟩] = [] := effects_singleton_eq_nil hf (Or.inl rfl)
  have hnone' : ∀ vs, r.effects [⟨"replace", vs⟩] = [] :=
    effects_singleton_eq_nil hreplace (Or.inl rfl)
  refine ⟨fun d hkey => ?_, fun memo v xs h => ?_⟩
  · have hsubject : subject.Every (fun _ => OwnKeyed r) (d + 1) := hkey.2.2.1
    exact ⟨ownKeyed_of_memo?_eq_none rfl, hsubject, ownKeyed_of_memo?_eq_none rfl,
      ownKeyed_of_memo?_eq_none rfl, trivial⟩
  · cases h with
    | call p memo hf' hargs hv =>
        obtain rfl := Option.some.inj (hf.symm.trans hf')
        obtain ⟨ws, hrest, rfl⟩ := yieldAll_literal_cons_iff.1 hargs
        obtain ⟨us, hlast, rfl⟩ := yieldAll_literal_cons_iff.1 hrest
        obtain ⟨u, hsubject, rfl⟩ := yieldAll_singleton_iff.1 hlast
        have hgive : Function.replace.CanGive
            [u, .string (String.ofList plain), .string (String.ofList expanded)] v := by
          obtain ⟨p', w, hv⟩ := hv
          refine ⟨p', w, ?_⟩
          rw [← Function.execute_regReplace_plain hs hne hp hr he u p' w]
          exact hv
        have hliterals : YieldAll r [.literal (.string (String.ofList plain)) q,
            .literal (.string (String.ofList expanded)) q']
            [.string (String.ofList plain), .string (String.ofList expanded)] [] :=
          @yieldAll_literals r _
            [.string (String.ofList plain), .string (String.ofList expanded)] rfl
        have hyield := Yields.call p none hreplace (.cons hsubject hliterals) hgive
        rw [hnone', List.append_nil] at hyield
        rw [hnone]
        exact hyield

/-- A split becomes the one of plain text. -/
theorem standsIn_regSplit (hsplit : r.get? "split" = some .split) {name : String}
    (hf : r.get? name = some .regSplit) {args : List Node} {p : Place} {m : Node}
    (hm : Function.splitRewrite args p = .ok (some m)) : r.StandsIn name p args m := by
  obtain ⟨source, q, rest, plain, pattern, rfl, hs, hne, hp, rfl⟩ :=
    Function.splitRewrite_eq_some hm
  have hnone : ∀ vs, r.effects [⟨name, vs⟩] = [] := effects_singleton_eq_nil hf (Or.inl rfl)
  have hnone' : ∀ vs, r.effects [⟨"split", vs⟩] = [] :=
    effects_singleton_eq_nil hsplit (Or.inl rfl)
  refine ⟨fun d hkey => ?_, fun memo v xs h => ?_⟩
  · exact ⟨ownKeyed_of_memo?_eq_none rfl, ownKeyed_of_memo?_eq_none rfl, hkey.2⟩
  · cases h with
    | call p memo hf' hargs hv =>
        obtain rfl := Option.some.inj (hf.symm.trans hf')
        obtain ⟨vs, hrest, rfl⟩ := yieldAll_literal_cons_iff.1 hargs
        have hgive : Function.split.CanGive (.string (String.ofList plain) :: vs) v := by
          obtain ⟨p', w, hv⟩ := hv
          refine ⟨p', w, ?_⟩
          rw [← Function.execute_regSplit_plain hs hne hp vs p' w]
          exact hv
        have hargs' := (@yieldAll_literal_cons_iff r (.string (String.ofList plain)) q _ _ _).2
          ⟨vs, hrest, rfl⟩
        have hyield := Yields.call p none hsplit hargs' hgive
        rw [hnone'] at hyield
        rw [hnone]
        exact hyield

/-- What a call is replaced by may stand in for it. Only functions of the language give other
    calls. -/
theorem ExtendsStandard.standsIn (hr : r.ExtendsStandard) {name : String} {f : Function}
    (hf : r.get? name = some f) (hw : f.allows .rewritten = true) {args : List Node} {p : Place}
    {m : Node} (hm : f.rewrite args p = .ok (some m)) : r.StandsIn name p args m := by
  rcases hr.others name f hf with hmem | ⟨hno, -⟩
  · have hreplace : r.get? "replace" = some .replace :=
      hr.builtins .replace (by simp [Registry.builtins])
    have hsplit : r.get? "split" = some .split := hr.builtins .split (by simp [Registry.builtins])
    rcases Function.rewrite_eq_some hmem hm with ⟨rfl, h⟩ | ⟨rfl, h⟩
    · exact standsIn_regReplace hreplace hf h
    · exact standsIn_regSplit hsplit hf h
  · rw [hno] at hw
    cases hw

end Registry

namespace Optimizer

open Evaluator Run

variable {o : Options}

/-! ## 2. Expressions -/

mutual

/-- **An optimized expression has the value and the effects that it had before**, and its memo keys
    are its own again. -/
theorem Becomes.yields (hr : r.ExtendsStandard) : ∀ {n n' : Node} {d : Nat}, Becomes r o d n n' →
    n.Every (fun _ => OwnKeyed r) d →
    n'.Every (fun _ => OwnKeyed r) d ∧ ∀ v xs, Yields r n v xs → Yields r n' v xs
  | _, _, _, .literal v p hd, hkey => ⟨hkey, fun _ _ h => h⟩
  | _, _, d, @Becomes.call _ _ _ args args' f name p memo hd hargs hf ha, hkey => by
      obtain ⟨hkey', hyields⟩ := BecomeAll.yields hr hargs hkey.2
      have hmemo := ownKeyed_memoFor hf hkey.1 hargs
      refine ⟨⟨hmemo, hkey'⟩, fun v xs h => ?_⟩
      cases h with
      | call p memo hf' hvs hv => exact .call p _ hf' (hyields _ _ hvs) hv
  | _, _, d, @Becomes.replaced _ _ _ args args' f m n' name p memo hd hargs hf ha hw hm hrest,
      hkey => by
      obtain ⟨hkey', hyields⟩ := BecomeAll.yields hr hargs hkey.2
      have hstands := hr.standsIn hf hw hm
      obtain ⟨hout, hlast⟩ := Becomes.yields hr hrest (hstands.keyed _ hkey')
      refine ⟨hout, fun v xs h => ?_⟩
      cases h with
      | call p memo hf' hvs hv =>
          have hcall := Yields.call p memo hf' (hyields _ _ hvs) hv
          exact hlast _ _ (hstands.yields _ _ _ hcall)

theorem BecomeAll.yields (hr : r.ExtendsStandard) : ∀ {ns ns' : List Node} {d : Nat},
    BecomeAll r o d ns ns' → EveryIn (fun _ => OwnKeyed r) d ns →
    EveryIn (fun _ => OwnKeyed r) d ns' ∧ ∀ vs xs, YieldAll r ns vs xs → YieldAll r ns' vs xs
  | _, _, _, .nil _, _ => ⟨trivial, fun _ _ h => h⟩
  | _, _, _, .cons h hs, hkey => by
      obtain ⟨hn, hyield⟩ := Becomes.yields hr h hkey.1
      obtain ⟨hns, hyields⟩ := BecomeAll.yields hr hs hkey.2
      refine ⟨⟨hn, hns⟩, fun vs xs h => ?_⟩
      cases h with
      | cons hv hvs => exact .cons (hyield _ _ hv) (hyields _ _ hvs)

end

/-! ## 3. Statements that are left out -/

mutual

/-- **What can be left out has no effects**: every function in it allows that its calls are left
    out. -/
theorem effects_eq_nil_of_isDroppable : ∀ {n : Node} {v : Value} {xs : List Execution},
    Yields r n v xs → isDroppable r n = true → xs = []
  | _, _, _, .literal _ _, _ => rfl
  | _, _, _, .call _ _ hf hargs _, h => by
      rw [isDroppable, hf, Bool.and_eq_true] at h
      rw [effects_eq_nil_of_areDroppable hargs h.2,
        Registry.effects_singleton_eq_nil hf (Or.inr h.1)]
      rfl

theorem effects_eq_nil_of_areDroppable : ∀ {ns : List Node} {vs : List Value}
    {xs : List Execution}, YieldAll r ns vs xs → areDroppable r ns = true → xs = []
  | _, _, _, .nil, _ => rfl
  | _, _, _, .cons hv hvs, h => by
      rw [areDroppable, Bool.and_eq_true] at h
      rw [effects_eq_nil_of_isDroppable hv h.1, effects_eq_nil_of_areDroppable hvs h.2]
      rfl

end

/-- **An optimized program has the effects that it had before.** The statements that are left out
    had none. -/
theorem BecomesProgram.yields (hr : r.ExtendsStandard) : ∀ {p p' : Program},
    BecomesProgram r o p p' → (∀ n ∈ p, n.Every (fun _ => OwnKeyed r) 1) →
    (∀ n ∈ p', n.Every (fun _ => OwnKeyed r) 1) ∧
      ∀ vs xs, YieldAll r p vs xs → ∃ vs', YieldAll r p' vs' xs
  | _, _, .nil, hkey => ⟨hkey, fun vs _ h => ⟨vs, h⟩⟩
  | _, _, .last hn, hkey => by
      obtain ⟨hout, hyield⟩ := hn.yields hr (hkey _ List.mem_cons_self)
      refine ⟨List.forall_mem_singleton.2 hout, fun vs xs h => ?_⟩
      cases h with
      | cons hv hvs =>
          cases hvs
          exact ⟨_, .cons (hyield _ _ hv) .nil⟩
  | _, _, .keep hn hs, hkey => by
      obtain ⟨hkey₁, hkeys⟩ := List.forall_mem_cons.1 hkey
      obtain ⟨hout, hyield⟩ := hn.yields hr hkey₁
      obtain ⟨houts, hyields⟩ := BecomesProgram.yields hr hs hkeys
      refine ⟨List.forall_mem_cons.2 ⟨hout, houts⟩, fun vs xs h => ?_⟩
      cases h with
      | cons hv hvs =>
          obtain ⟨vs', hvs'⟩ := hyields _ _ hvs
          exact ⟨_, .cons (hyield _ _ hv) hvs'⟩
  | _, _, .drop hn ho hdrop hs, hkey => by
      obtain ⟨hkey₁, hkeys⟩ := List.forall_mem_cons.1 hkey
      obtain ⟨-, hyield⟩ := hn.yields hr hkey₁
      obtain ⟨houts, hyields⟩ := BecomesProgram.yields hr hs hkeys
      refine ⟨houts, fun vs xs h => ?_⟩
      cases h with
      | cons hv hvs =>
          rw [effects_eq_nil_of_isDroppable (hyield _ _ hv) hdrop]
          exact hyields _ _ hvs

/-! ## 4. Programs -/

/-- **No effect is dropped, done twice or moved.** If a program and what the optimizer gives for it
    both have a value, each in a session in which nothing has happened, then they carried out the
    same calls of functions with effects, with the same arguments and in the same order. -/
theorem effects_of_optimize (hr : r.ExtendsStandard) {p p' : Program}
    (hkey : ∀ n ∈ p, n.Every (fun _ => OwnKeyed r) 1) (hp : optimize r o p = .ok p')
    {limit limit' : Nat} {services services' : Services} {v v' : Value} {s s' : Session}
    (hv : (eval r limit p).result (.fresh services) = (.ok v, s))
    (hv' : (eval r limit' p').result (.fresh services') = (.ok v', s')) :
    r.effects s'.world.trace = r.effects s.world.trace := by
  obtain ⟨hkey', htransfer⟩ := (becomesProgram_optimize hp).yields hr hkey
  have hempty : (∅ : Memo).All (MemoKey.Earned r) := Memo.all_empty _
  obtain ⟨vs, xs, hyield, hleads⟩ := yieldAll_of_evalFrom hr.allDetermined p hkey hempty hv
  obtain ⟨vs', ys, hyield', hleads'⟩ := yieldAll_of_evalFrom hr.allDetermined p' hkey' hempty hv'
  obtain ⟨us, htransferred⟩ := htransfer vs xs hyield
  obtain ⟨-, rfl⟩ := htransferred.unique hr.allDetermined hyield'
  rw [hleads.effects, hleads'.effects]
  rfl

/-- A host function that gives its argument back and allows no treatment. -/
def emit : Function :=
  Function.ofPure
    { name := "emit"
      arity := .fixed 1
      params := []
      docs := ""
      examples := []
      thrown := []
      treatments := [] }
    (fun args => .ok (Function.arg args 0)) Function.noCheck Function.noRewrite

/-- The functions of the language, and one of a host. -/
def emitting : Registry := Registry.standard.extend [emit]

/-- A call that quotes a dot. -/
def quotedDot (memo : Option MemoKey) : Node :=
  .call "reg_escape" default [.literal (.string ".") default] memo

/-- The quoted dot goes to the host, and then it is the value. -/
def emitDot (memo : Option MemoKey) : Program :=
  [.call "emit" default [quotedDot memo] none, quotedDot memo]

/-- A statement that is left out, an effect, and a result that is found among those kept before. -/
theorem effects_of_optimize_emitting :
    emitting.effects ((eval emitting 128 (emitDot (some ⟨"reg_escape", [.string "."]⟩))).result
      (.fresh Environment.empty)).2.world.trace = [⟨"emit", [.string "\\."]⟩] := by
  have hr : emitting.ExtendsStandard := Registry.extendsStandard_extend
    (List.forall_mem_singleton.2 ⟨rfl, Function.Pure.determined ⟨_, fun _ _ _ => rfl⟩⟩)
  have harray : emitting.get? "array" = some .array :=
    hr.builtins .array (by simp [Registry.builtins])
  have hescape : emitting.get? "reg_escape" = some .regEscape :=
    hr.builtins .regEscape (by simp [Registry.builtins])
  have hemit : emitting.get? "emit" = some emit := by
    rw [emitting, Registry.get?_extend, Registry.get?_standard]
    rfl
  have hdot : Function.textValue (Pattern.escape (Function.charsOf [.string "."] 0)) =
      .string "\\." := rfl
  have hkey : ∀ n ∈ .call "array" default [] none :: emitDot none,
      n.Every (fun _ => OwnKeyed emitting) 1 := by
    simp [Every, EveryIn, OwnKeyed, Node.memo?, emitDot, quotedDot]
  have hp : optimize emitting {} (.call "array" default [] none :: emitDot none) =
      .ok (emitDot (some ⟨"reg_escape", [.string "."]⟩)) := by
    obtain ⟨k₁, hk₁⟩ := budgetFor_eq_succ emitting (.call "array" default [] none)
    obtain ⟨k₂, hk₂⟩ := budgetFor_eq_succ emitting (.call "emit" default [quotedDot none] none)
    obtain ⟨k₃, hk₃⟩ := budgetFor_eq_succ emitting (quotedDot none)
    simp only [emitDot, optimize, optimizeNode, hk₁, hk₂, hk₃]
    simp [optimizeAt, optimizeWith, optimizeAllWith, optimizeCall, harray, hescape, hemit, emit,
      quotedDot, Function.array, Function.regEscape, Function.ofPure, Function.allows,
      Arity.accepts, Function.noCheck, Function.raiseAt, validate, raised, replacement?, memoFor,
      Node.literals?, Node.literal?, isDroppable, areDroppable, defaultMaxDepth, bind,
      Except.bind, pure, Except.pure]
  have hv : (eval emitting 128 (.call "array" default [] none :: emitDot none)).result
      (.fresh Environment.empty) =
      (.ok (.string "\\."), ⟨∅, ⟨Environment.empty, [], [⟨"reg_escape", [.string "."]⟩,
        ⟨"emit", [.string "\\."]⟩, ⟨"reg_escape", [.string "."]⟩, ⟨"array", []⟩]⟩⟩) := by
    simp [eval, evalFrom, evalNode, evalAt, evalAllAt, callee, harray, hescape, hemit, hdot, emit,
      emitDot, quotedDot, result_bind, result_execute, Function.array, Function.regEscape,
      Function.ofPure, Function.raiseAt, Function.arg, Arity.accepts, Session.fresh, World.fresh,
      World.note, mapError_ok, Literal.toValue]
  have hv' : ((eval emitting 128 (emitDot (some ⟨"reg_escape", [.string "."]⟩))).result
      (.fresh Environment.empty)).1 = .ok (.string "\\.") := by
    simp [eval, evalFrom, evalNode, evalAt, evalAllAt, callee, hescape, hemit, hdot, emit,
      emitDot, quotedDot, result_bind, result_execute, result_remember, Function.regEscape,
      Function.ofPure, Function.raiseAt, Function.arg, Arity.accepts, Session.fresh, World.fresh,
      World.note, mapError_ok, Literal.toValue, makeRoom]
  rw [effects_of_optimize hr hkey hp hv (Prod.ext hv' rfl)]
  simp [World.trace, Registry.effects, Registry.isEffect, harray, hescape, hemit, emit,
    Function.isEffectful, Function.array, Function.regEscape, Function.ofPure, Function.allows]

end Optimizer

end CallScript
