import CallScript.Proofs.Function.Matches
import CallScript.Proofs.Function.Rewrite
import CallScript.Proofs.Pattern.PlainMatches

/-!
# Plain patterns and plain text

A function on patterns does what the one on plain text does, where the pattern means nothing but a
text. This is what makes it right to put the one call in the place of the other.

* `execute_regReplace_plain`: replacing the matches is replacing the text;
* `execute_regSplit_plain`: splitting at the matches is splitting at the text, with the same faults
  of the limit on cuts.
-/

namespace CallScript.Function

open Pattern (plainProgram matchAt Subject)
open Text (occursAt)

/-! ## 1. Pieces -/

section

variable {d : List Char} {subject : Subject} {cuts : Option Nat}

/-- If a cut is allowed, one fewer is allowed behind it. -/
theorem takeAtMost_cons {α : Type} (hcuts : cuts ≠ some 0) (x : α) (xs : List α) :
    takeAtMost cuts (x :: xs) = x :: takeAtMost (Text.oneLess cuts) xs := by
  match cuts with
  | none => rfl
  | some 0 => exact absurd rfl hcuts
  | some (n + 1) => rfl

theorem takeAtMost_nil {α : Type} : takeAtMost cuts ([] : List α) = [] := by
  cases cuts with
  | none => rfl
  | some n => exact List.take_nil

/-- **Cutting at the matches is cutting at the occurrences**, as far as cuts are allowed. -/
theorem piecesBetween_plain (hd : d ≠ []) (cuts : Option Nat) {place : Nat}
    (h : place ≤ subject.size) :
    piecesBetween subject place
        (takeAtMost cuts ((plainProgram d).findBehind subject place)) =
      (Text.splitOnFrom d cuts 0 (subject.toList.drop place)).1 ::
        (Text.splitOnFrom d cuts 0 (subject.toList.drop place)).2 := by
  refine Pattern.place_induction subject (P := fun place => ∀ cuts,
    piecesBetween subject place (takeAtMost cuts ((plainProgram d).findBehind subject place)) =
      (Text.splitOnFrom d cuts 0 (subject.toList.drop place)).1 ::
        (Text.splitOnFrom d cuts 0 (subject.toList.drop place)).2)
    (fun place h ih cuts => ?_) h cuts
  have hend : piecesBetween subject place [] = [subject.toList.drop place] :=
    congrArg (fun s => [s]) (Pattern.slice_to_end subject place)
  by_cases hcuts : cuts = some 0
  · rw [hcuts, Text.splitOnFrom_some_zero]
    exact hend
  · rcases Pattern.findBehind_cases hd h with ⟨hnil, hnone⟩ | ⟨start, hle, hocc, hbefore, hcons⟩
    · rw [hnil, takeAtMost_nil, Text.splitOnFrom_of_not_occursAt hnone]
      exact hend
    · have hpos := List.length_pos_iff.2 hd
      have hnext := ih (start + d.length) (by omega) (Pattern.stop_le_of_occursAt hd hocc)
        (Text.oneLess cuts)
      rw [hcons, takeAtMost_cons hcuts, Pattern.drop_eq_slice_append subject hle,
        Text.splitOnFrom_before hbefore, Pattern.drop_of_occursAt hocc,
        Text.splitOnFrom_at hd hcuts, ← hnext, List.append_nil]
      rfl

/-- The pieces of a subject at the matches of a plain pattern. -/
theorem splitAtMatches_plain (hd : d ≠ []) {p : Pattern} (hp : p.program = plainProgram d)
    (cuts : Option Nat) (subject : Subject) :
    splitAtMatches p cuts subject = pieces d cuts subject.toList := by
  have hfilter : ((plainProgram d).findBehind subject 0).filter (fun m => m.stop ≠ 0) =
      (plainProgram d).findBehind subject 0 :=
    List.filter_eq_self.2 fun m hm =>
      decide_eq_true (Pattern.stop_ne_zero hd (Nat.zero_le _) m hm)
  have hempty : ¬ d.isEmpty = true := by
    rw [List.isEmpty_iff]
    exact hd
  unfold splitAtMatches pieces Text.splitOn
  rw [hp, Pattern.findAll_plain hd, hfilter, piecesBetween_plain hd cuts (Nat.zero_le _),
    if_neg hempty]
  rfl

end

/-! ## 2. Calls -/

section

variable {source : String} {plain : List Char} {p : Pattern}

/-- The pattern that a text stands for, if it means nothing but a text. -/
theorem patternOf_plain (hs : Pattern.plainText? source.toList = some plain)
    (hp : patternOf (.string source) = .ok p) :
    p.program = plainProgram plain ∧ p.groups = Pattern.Groups.empty := by
  have hp : compileText source ⟨false, false, false⟩ = .ok p := hp
  unfold compileText at hp
  split at hp
  · next hc =>
    cases hp
    exact Pattern.compile_plain hs hc
  · cases hp

theorem replacementOf_eq_ok {text : String} {r : Pattern.Replacement}
    (h : replacementOf text p = .ok r) : Pattern.Replacement.parse text p = .ok r := by
  unfold replacementOf at h
  split at h
  · cases h
    assumption
  · cases h

/-- The text that replaces the matches of a plain pattern. -/
theorem forPlainText_of_replacementOf (hs : Pattern.plainText? source.toList = some plain)
    (hp : patternOf (.string source) = .ok p) {text : String} {r : Pattern.Replacement}
    (hr : replacementOf text p = .ok r) :
    Pattern.Replacement.forPlainText text plain = .ok (r.expand (Pattern.onlyWhole plain)) := by
  rw [Pattern.forPlainText_eq (patternOf_plain hs hp).2, replacementOf_eq_ok hr]
  rfl

/-- Replacing the matches is replacing the text, for every pattern with the program of a text. -/
theorem execute_regReplace_of_program {pattern : Value} (hp : patternOf pattern = .ok p)
    (hprogram : p.program = plainProgram plain) (hne : plain ≠ []) {text : Value}
    {r : Pattern.Replacement} (hr : replacementOf text.render p = .ok r) (subject : Value)
    (place : Place) (w : World) :
    regReplace.execute [pattern, text, subject] place w =
      replace.execute [subject, .string (String.ofList plain),
        .string (String.ofList (r.expand (Pattern.onlyWhole plain)))] place w := by
  have hempty : ¬ plain.isEmpty = true := by
    rw [List.isEmpty_iff]
    exact hne
  rw [regReplace_execute hp hr, Pattern.replaceAll_plain hne r hprogram]
  show _ = (raiseAt place (.ok (textValue (substitute subject.render.toList
    (String.ofList plain).toList
    (String.ofList (r.expand (Pattern.onlyWhole plain))).toList))), w)
  rw [String.toList_ofList, String.toList_ofList, substitute, if_neg hempty]
  rfl

/-- Splitting at the matches is splitting at the text, for every pattern with the program of a
    text. -/
theorem execute_regSplit_of_program {pattern : Value} (hp : patternOf pattern = .ok p)
    (hprogram : p.program = plainProgram plain) (hne : plain ≠ []) (rest : List Value)
    (place : Place) (w : World) :
    regSplit.execute (pattern :: rest) place w =
      split.execute (.string (String.ofList plain) :: rest) place w := by
  show (raiseAt place (do
      let p ← patternOf pattern
      let cuts ← cutsFor rest[1]?
      pure (textsValue (splitAtMatches p cuts (charsOf rest 0).toArray))), w) =
    (raiseAt place (do
      let cuts ← cutsFor rest[1]?
      pure (textsValue (pieces (String.ofList plain).toList cuts (charsOf rest 0)))), w)
  rw [hp, String.toList_ofList]
  simp only [bind, Except.bind]
  cases cutsFor rest[1]? with
  | error e => rfl
  | ok cuts =>
      simp only
      rw [splitAtMatches_plain hne hprogram]

/-- **Replacing the matches of a plain pattern is replacing its text.** -/
theorem execute_regReplace_plain (hs : Pattern.plainText? source.toList = some plain)
    (hne : plain ≠ []) (hp : patternOf (.string source) = .ok p) {text : String}
    {r : Pattern.Replacement} (hr : replacementOf text p = .ok r) {expanded : List Char}
    (he : Pattern.Replacement.forPlainText text plain = .ok expanded) (subject : Value)
    (place : Place) (w : World) :
    regReplace.execute [.string source, .string text, subject] place w =
      replace.execute
        [subject, .string (String.ofList plain), .string (String.ofList expanded)] place w := by
  rw [forPlainText_of_replacementOf hs hp hr] at he
  cases he
  have hr : replacementOf (Value.string text).render p = .ok r := hr
  exact execute_regReplace_of_program hp (patternOf_plain hs hp).1 hne hr subject place w

/-- **Splitting at the matches of a plain pattern is splitting at its text.** -/
theorem execute_regSplit_plain (hs : Pattern.plainText? source.toList = some plain)
    (hne : plain ≠ []) (hp : patternOf (.string source) = .ok p) (rest : List Value)
    (place : Place) (w : World) :
    regSplit.execute (.string source :: rest) place w =
      split.execute (.string (String.ofList plain) :: rest) place w :=
  execute_regSplit_of_program hp (patternOf_plain hs hp).1 hne rest place w

end

end CallScript.Function
