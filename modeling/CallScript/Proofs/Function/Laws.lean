import CallScript.Proofs.Function.Plain
import CallScript.Proofs.Run.Agreement

/-!
# What functions have to keep

What a function says about its treatments has to be true, or a program could tell whether it was
optimized (`Function.Lawful`):

* calls see nothing of a world but its services, and do nothing to it but write lines;
* a call whose result may be kept, or that may be left out, computes with its arguments alone;
* validation and replacement raise nothing in front of a call that would succeed.

`lawful_of_mem_builtins`: the functions of the language are lawful.
-/

namespace CallScript

/-! ## 1. The laws -/

/-- The value that the expression may have: literals have their own. -/
def Node.Fits : Node → Value → Prop
  | .literal l _, v => v = l.toValue
  | .call _ _ _ _, _ => True

/-- The values that the expressions may have. -/
def Node.FitAll : List Node → List Value → Prop
  | [], [] => True
  | n :: ns, v :: vs => n.Fits v ∧ FitAll ns vs
  | _, _ => False

namespace Function

/-- **Calls cannot tell worlds that are alike**, and they leave worlds that are alike. -/
def Blind (f : Function) : Prop :=
  ∀ args p sv a b w w', World.Alike sv a b w w' →
    (f.execute args p w).1 = (f.execute args p w').1 ∧
      World.Alike sv a b (f.execute args p w).2 (f.execute args p w').2

/-- **Calls compute with their arguments**, and with nothing else. -/
def Pure (f : Function) : Prop :=
  ∃ compute : List Value → Except Fault Value,
    ∀ args p w, f.execute args p w = (raiseAt p (compute args), w)

/-- What the function says about itself is true. -/
structure Lawful (f : Function) : Prop where
  blind : f.Blind
  kept : f.allows .kept = true → f.Pure
  droppable : f.allows .droppable = true → f.Pure
  validate : f.allows .validated = true → ∀ args p w v, (f.execute args p w).1 = .ok v →
    f.validate args p = .ok ()
  rewrite : f.allows .rewritten = true → ∀ nodes args p w v, Node.FitAll nodes args →
    (f.execute args p w).1 = .ok v → ∃ m?, f.rewrite nodes p = .ok m?

section

variable {f : Function}

theorem Pure.blind (h : f.Pure) : f.Blind := by
  obtain ⟨compute, hf⟩ := h
  intro args p sv a b w w' hw
  rw [hf, hf]
  exact ⟨rfl, hw⟩

/-- A result of a call that computes with its arguments is one that it always gives. -/
theorem Pure.always (h : f.Pure) {args : List Value} {p : Place} {w : World} {v : Value}
    (hv : (f.execute args p w).1 = .ok v) (p' : Place) (w' : World) :
    f.execute args p' w' = (.ok v, w') := by
  obtain ⟨compute, hf⟩ := h
  rw [hf] at hv
  rw [hf, raiseAt_eq_ok hv]
  rfl

end

/-- A function that only computes is lawful if its checks do not go beyond its computation. -/
theorem lawful_ofPure {d : Description} {compute : List Value → Except Fault Value}
    {check : List Value → Except Fault Unit}
    {replace : List Node → Place → Except Fault (Option Node)}
    (hcheck : ∀ args v, compute args = .ok v → check args = .ok ())
    (hreplace : ∀ nodes args p v, Node.FitAll nodes args → compute args = .ok v →
      ∃ m?, replace nodes p = .ok m?) : (ofPure d compute check replace).Lawful := by
  have hpure : (ofPure d compute check replace).Pure := ⟨compute, fun _ _ _ => rfl⟩
  refine ⟨hpure.blind, fun _ => hpure, fun _ => hpure, fun _ args p w v hv => ?_,
    fun _ nodes args p w v hfit hv => ?_⟩
  · have hv := raiseAt_eq_ok hv
    show raiseAt p (check args) = .ok ()
    rw [hcheck args v hv]
    rfl
  · obtain ⟨m?, hm⟩ := hreplace nodes args p v hfit (raiseAt_eq_ok hv)
    refine ⟨m?, ?_⟩
    show raiseAt p (replace nodes p) = .ok m?
    rw [hm]
    rfl

/-! ## 2. Arguments on patterns -/

section

variable {nodes : List Node} {args : List Value} {p : Pattern}

/-- A literal at a position has its own value. -/
theorem arg_of_fitAll : ∀ {nodes : List Node} {args : List Value}, Node.FitAll nodes args →
    ∀ (i : Nat) {l : Literal}, nodes[i]?.bind Node.literal? = some l → arg args i = l.toValue
  | [], [], _, i, l, hl => by simp at hl
  | n :: ns, v :: vs, h, 0, l, hl => by
      cases n with
      | literal l' q =>
          cases hl
          exact h.1
      | call => cases hl
  | n :: ns, v :: vs, h, i + 1, l, hl => arg_of_fitAll h.2 i hl

/-- A pattern that is written as a literal is the one of the call. -/
theorem literalPattern?_of_fitAll (h : Node.FitAll nodes args)
    (hp : patternOf (arg args 0) = .ok p) :
    literalPattern? nodes = .ok none ∨ literalPattern? nodes = .ok (some p) := by
  unfold literalPattern?
  rw [List.head?_eq_getElem?]
  cases hl : nodes[0]?.bind Node.literal? with
  | none => exact Or.inl rfl
  | some l =>
      rw [arg_of_fitAll h 0 hl] at hp
      refine Or.inr ?_
      dsimp only
      rw [hp]
      rfl

theorem checkLiteralPattern_of_fitAll (h : Node.FitAll nodes args)
    (hp : patternOf (arg args 0) = .ok p) (place : Place) :
    ∃ m?, checkLiteralPattern nodes place = .ok m? := by
  unfold checkLiteralPattern
  rcases literalPattern?_of_fitAll h hp with hl | hl
  · rw [hl]
    exact ⟨none, rfl⟩
  · rw [hl]
    exact ⟨none, rfl⟩

theorem literal?_of_text? {i : Nat} {text : String}
    (h : nodes[i]?.bind Node.text? = some text) :
    nodes[i]?.bind Node.literal? = some (.string text) := by
  cases hn : nodes[i]? with
  | none =>
      rw [hn] at h
      cases h
  | some n =>
      rw [hn] at h
      obtain ⟨q, rfl⟩ := text?_eq_some h
      rfl

/-- **A replacement that succeeds raises nothing before.** -/
theorem replaceRewrite_of_fitAll (h : Node.FitAll nodes args)
    (hp : patternOf (arg args 0) = .ok p) {r : Pattern.Replacement}
    (hr : replacementOf (arg args 1).render p = .ok r) (place : Place) :
    ∃ m?, replaceRewrite nodes place = .ok m? := by
  unfold replaceRewrite
  rcases literalPattern?_of_fitAll h hp with hl | hl
  · rw [hl]
    exact ⟨none, rfl⟩
  · rw [hl]
    simp only [bind, Except.bind]
    cases ht : nodes[1]?.bind Node.text? with
    | none => exact ⟨none, rfl⟩
    | some text =>
        have htext : (arg args 1).render = text := by
          rw [arg_of_fitAll h 1 (literal?_of_text? ht)]
          rfl
        rw [htext] at hr
        simp only [hr]
        split
        · next pattern replacement subject =>
          split
          · next plain hplain =>
            obtain ⟨source, q, rfl, hs, hne⟩ := plainPattern?_eq_some hplain
            obtain ⟨p', hp', hsome⟩ := literalPattern?_cons hl
            cases hsome
            rw [forPlainText_of_replacementOf hs hp' hr]
            exact ⟨_, rfl⟩
          · exact ⟨none, rfl⟩
        · exact ⟨none, rfl⟩

theorem splitRewrite_of_fitAll (h : Node.FitAll nodes args)
    (hp : patternOf (arg args 0) = .ok p) (place : Place) :
    ∃ m?, splitRewrite nodes place = .ok m? := by
  unfold splitRewrite
  rcases literalPattern?_of_fitAll h hp with hl | hl
  · rw [hl]
    exact ⟨none, rfl⟩
  · rw [hl]
    simp only [bind, Except.bind]
    split
    · split
      · exact ⟨_, rfl⟩
      · exact ⟨none, rfl⟩
    · exact ⟨none, rfl⟩

end

/-! ## 3. The functions of the language -/

/-- What computes without a fault computed without one at first. -/
theorem bind_eq_ok {α β : Type} {x : Except Fault α} {f : α → Except Fault β} {b : β}
    (h : x >>= f = .ok b) : ∃ a, x = .ok a ∧ f a = .ok b := by
  cases x with
  | error e => cases h
  | ok a => exact ⟨a, rfl, h⟩

/-- A function without checks and without replacements has nothing to keep to. -/
theorem lawful_unchecked (d : Description) (compute : List Value → Except Fault Value) :
    (ofPure d compute noCheck noRewrite).Lawful :=
  lawful_ofPure (fun _ _ _ => rfl) fun _ _ _ _ _ _ => ⟨none, rfl⟩

/-- The functions that compute with a pattern and a subject check the pattern. -/
theorem lawful_withPattern (d : Description) (compute : Pattern → Pattern.Subject → Value) :
    (ofPure d (withPattern compute) checkPattern checkLiteralPattern).Lawful := by
  refine lawful_ofPure (fun args v h => ?_) fun nodes args p v hfit h => ?_
  · obtain ⟨p, hp, -⟩ := bind_eq_ok h
    unfold checkPattern
    rw [hp]
    rfl
  · obtain ⟨p', hp, -⟩ := bind_eq_ok h
    exact checkLiteralPattern_of_fitAll hfit hp p

theorem lawful_split : split.Lawful := by
  refine lawful_ofPure (fun args v h => ?_) fun _ _ _ _ _ _ => ⟨none, rfl⟩
  obtain ⟨cuts, hc, -⟩ := bind_eq_ok h
  rw [hc]
  rfl

theorem lawful_regReplace : regReplace.Lawful := by
  refine lawful_ofPure (fun args v h => ?_) fun nodes args p v hfit h => ?_
  · obtain ⟨p, hp, h⟩ := bind_eq_ok h
    obtain ⟨r, hr, -⟩ := bind_eq_ok h
    rw [hp]
    simp only [bind, Except.bind, hr]
    rfl
  · obtain ⟨p', hp, h⟩ := bind_eq_ok h
    obtain ⟨r, hr, -⟩ := bind_eq_ok h
    exact replaceRewrite_of_fitAll hfit hp hr p

theorem lawful_regSplit : regSplit.Lawful := by
  refine lawful_ofPure (fun args v h => ?_) fun nodes args p v hfit h => ?_
  · obtain ⟨p, hp, h⟩ := bind_eq_ok h
    obtain ⟨cuts, hc, -⟩ := bind_eq_ok h
    rw [hp]
    simp only [bind, Except.bind, hc]
    rfl
  · obtain ⟨p', hp, -⟩ := bind_eq_ok h
    exact splitRewrite_of_fitAll hfit hp p

/-- The console writes its line wherever it is called, and it allows no treatment. -/
theorem lawful_console : console.Lawful := by
  have hnone : ∀ t, console.allows t ≠ true := fun t h => by cases t <;> cases h
  exact ⟨fun args p sv a b w w' hw => ⟨rfl, hw.writeLine _⟩, fun h => absurd h (hnone _),
    fun h => absurd h (hnone _), fun h => absurd h (hnone _), fun h => absurd h (hnone _)⟩

/-- **The functions of the language are lawful.** -/
theorem lawful_of_mem_builtins {f : Function} (hf : f ∈ Registry.builtins) : f.Lawful := by
  simp only [Registry.builtins, List.mem_cons, List.not_mem_nil, or_false] at hf
  rcases hf with rfl | rfl | rfl | rfl | rfl | rfl | rfl | rfl | rfl | rfl | rfl
  · exact lawful_unchecked _ _
  · exact lawful_unchecked _ _
  · exact lawful_unchecked _ _
  · exact lawful_split
  · exact lawful_console
  · exact lawful_withPattern _ _
  · exact lawful_withPattern _ _
  · exact lawful_regReplace
  · exact lawful_regSplit
  · exact lawful_withPattern _ _
  · exact lawful_unchecked _ _

end Function

end CallScript
