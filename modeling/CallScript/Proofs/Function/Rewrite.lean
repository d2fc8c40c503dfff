import CallScript.Proofs.Registry.Lookup

/-!
# What functions are replaced by

Two functions of the language give another call in the place of theirs, when their pattern is written
as a literal and means nothing but a text: a replacement becomes `replace`, and a split becomes `split`.
Both replacements are turned around here, into what must have been written for them.
-/

namespace CallScript.Function

variable {args : List Node} {place : Place} {n : Node}

/-- A pattern means a text only where it is written as one. -/
theorem plainPattern?_eq_some {plain : List Char} (h : plainPattern? n = some plain) :
    ∃ s q, n = .literal (.string s) q ∧ Pattern.plainText? s.toList = some plain ∧ plain ≠ [] := by
  unfold plainPattern? at h
  cases hn : n.text?.bind fun s => Pattern.plainText? s.toList with
  | none => simp [hn] at h
  | some cs =>
      obtain ⟨s, hs, hp⟩ := Option.bind_eq_some_iff.1 hn
      obtain ⟨q, rfl⟩ : ∃ q, n = .literal (.string s) q := by
        cases n with
        | literal v q =>
            cases v with
            | string s' =>
                cases hs
                exact ⟨q, rfl⟩
            | integer | null => cases hs
        | call => cases hs
      cases cs with
      | nil => simp [hn] at h
      | cons c r =>
          simp only [hn, Option.some.injEq] at h
          subst h
          exact ⟨s, q, rfl, hp, List.cons_ne_nil c r⟩

theorem text?_eq_some {s : String} (h : n.text? = some s) : ∃ q, n = .literal (.string s) q := by
  unfold Node.text? at h
  split at h
  · cases h
    exact ⟨_, rfl⟩
  · cases h

/-- The pattern of a call is the one that its first argument stands for. -/
theorem literalPattern?_cons {v : Literal} {q : Place} {p? : Option Pattern}
    (h : literalPattern? (.literal v q :: args) = .ok p?) :
    ∃ p, patternOf v.toValue = .ok p ∧ p? = some p := by
  have h : (patternOf v.toValue).map some = .ok p? := h
  cases hp : patternOf v.toValue with
  | error e =>
      rw [hp] at h
      cases h
  | ok p =>
      rw [hp] at h
      cases h
      exact ⟨p, rfl, rfl⟩

/-- **A replacement that is replaced** has a plain pattern and a text to put in its place, both
    written as literals and both in order; the subject goes to the front. -/
theorem replaceRewrite_eq_some (h : replaceRewrite args place = .ok (some n)) :
    ∃ source q text q' subject plain expanded p r,
      args = [.literal (.string source) q, .literal (.string text) q', subject] ∧
      Pattern.plainText? source.toList = some plain ∧ plain ≠ [] ∧
      patternOf (.string source) = .ok p ∧ replacementOf text p = .ok r ∧
      Pattern.Replacement.forPlainText text plain = .ok expanded ∧
      n = .call "replace" place
        [subject, .literal (.string (String.ofList plain)) q,
          .literal (.string (String.ofList expanded)) q'] none := by
  unfold replaceRewrite at h
  cases hp : literalPattern? args with
  | error e => simp [hp, bind, Except.bind] at h
  | ok p? =>
      simp only [hp, bind, Except.bind] at h
      split at h
      · next p text ht =>
        cases hr : replacementOf text p with
        | error e => simp [hr] at h
        | ok r =>
            simp only [hr] at h
            split at h
            · next pattern replacement subject =>
              split at h
              · next plain hplain =>
                obtain ⟨source, q, rfl, hs, hne⟩ := plainPattern?_eq_some hplain
                obtain ⟨q', rfl⟩ := text?_eq_some (n := replacement) ht
                obtain ⟨p', hp', hsome⟩ := literalPattern?_cons hp
                cases hsome
                split at h
                · cases h
                · next expanded he =>
                  cases h
                  exact ⟨source, q, text, q', subject, plain, expanded, p, r, rfl, hs, hne, hp',
                    hr, he, rfl⟩
              · cases h
            · cases h
      · cases h

/-- **A split that is replaced** has a plain pattern that is written as a literal and in order. -/
theorem splitRewrite_eq_some (h : splitRewrite args place = .ok (some n)) :
    ∃ source q rest plain p, args = .literal (.string source) q :: rest ∧
      Pattern.plainText? source.toList = some plain ∧ plain ≠ [] ∧
      patternOf (.string source) = .ok p ∧
      n = .call "split" place (.literal (.string (String.ofList plain)) q :: rest) none := by
  unfold splitRewrite at h
  cases hp : literalPattern? args with
  | error e => simp [hp, bind, Except.bind] at h
  | ok p? =>
      simp only [hp, bind, Except.bind] at h
      split at h
      · next p pattern rest =>
        split at h
        · next plain hplain =>
          cases h
          obtain ⟨source, q, rfl, hs, hne⟩ := plainPattern?_eq_some hplain
          obtain ⟨p', hp', hsome⟩ := literalPattern?_cons hp
          exact ⟨source, q, rest, plain, p', rfl, hs, hne, hp', rfl⟩
        · cases h
      · cases h

/-- A fault has no replacement, and a replacement is not changed on the way out. -/
theorem raiseAt_eq_ok {α : Type} {x : Except Fault α} {a : α} (h : raiseAt place x = .ok a) :
    x = .ok a := by
  cases x with
  | ok b =>
      cases h
      rfl
  | error e => cases h

/-- Functions that only check their pattern have no replacement. -/
theorem checkLiteralPattern_ne_some : checkLiteralPattern args place ≠ .ok (some n) := by
  unfold checkLiteralPattern
  cases literalPattern? args with
  | error e => exact nofun
  | ok p => exact nofun

/-- **The functions of the language that are replaced** are the replacement and the split. -/
theorem rewrite_eq_some {f : Function} (hf : f ∈ Registry.builtins)
    (h : f.rewrite args place = .ok (some n)) :
    (f = regReplace ∧ replaceRewrite args place = .ok (some n)) ∨
      (f = regSplit ∧ splitRewrite args place = .ok (some n)) := by
  simp only [Registry.builtins, List.mem_cons, List.not_mem_nil, or_false] at hf
  rcases hf with rfl | rfl | rfl | rfl | rfl | rfl | rfl | rfl | rfl | rfl | rfl
  case inr.inr.inr.inr.inr.inr.inr.inl => exact Or.inl ⟨rfl, raiseAt_eq_ok h⟩
  case inr.inr.inr.inr.inr.inr.inr.inr.inl => exact Or.inr ⟨rfl, raiseAt_eq_ok h⟩
  all_goals first
    | exact absurd (raiseAt_eq_ok h) checkLiteralPattern_ne_some
    | cases h

/-- A call of a function of the language is replaced by a call of `replace` or `split` at its place, whose
    arguments are literals or arguments that it had. -/
theorem shape_of_rewrite {f : Function} (hf : f ∈ Registry.builtins)
    (h : f.rewrite args place = .ok (some n)) :
    ∃ name args', n = .call name place args' none ∧ (name = "replace" ∨ name = "split") ∧
      ∀ m ∈ args', m ∈ args ∨ ∃ v q, m = .literal v q := by
  rcases rewrite_eq_some hf h with ⟨rfl, hm⟩ | ⟨rfl, hm⟩
  · obtain ⟨_, _, _, _, subject, _, _, _, _, rfl, -, -, -, -, -, rfl⟩ := replaceRewrite_eq_some hm
    refine ⟨_, _, rfl, Or.inl rfl, ?_⟩
    simp
  · obtain ⟨_, _, rest, _, _, rfl, -, -, -, rfl⟩ := splitRewrite_eq_some hm
    refine ⟨_, _, rfl, Or.inr rfl, List.forall_mem_cons.2 ⟨Or.inr ⟨_, _, rfl⟩, fun m hm => ?_⟩⟩
    exact Or.inl (List.mem_cons_of_mem _ hm)

end CallScript.Function
