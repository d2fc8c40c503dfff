import CallScript.Proofs.Function.Declared
import CallScript.Proofs.Function.Plain
import CallScript.Proofs.Pattern.Occurrences

/-!
# Calls on patterns and calls on texts

A replacement or a split whose pattern means nothing but a text is replaced by the call on plain text.
Here the two are compared as they run, for literals as they are written: the call on the pattern and
the one that stands in for it, with every subject and every limit.

* `regReplace_rewrite_equivalent`: the replacement and what stands in for it give the same text, and
  nothing can stand in because of an exception exactly where the replacement raises that exception;
* `regSplit_rewrite_equivalent`: the split and what stands in for it give the same pieces, or the
  same exception because of the limit.
-/

namespace CallScript.Function

open Pattern (plainProgram)

variable {source text : String} {q q' place : Place} {subject : Node}

/-! ## 1. Replacements -/

/-- The arguments of a replacement whose pattern and replacement are written as literals. -/
def replacementArgs (source text : String) (q q' : Place) (subject : Node) : List Node :=
  [.literal (.string source) q, .literal (.string text) q', subject]

/-- What a replacement reads before it looks at the subject. -/
def readReplacement (source text : String) : Except Fault (Pattern × Pattern.Replacement) :=
  (patternOf (.string source)).bind fun p => (replacementOf text p).map fun r => (p, r)

/-- The call that stands in for a replacement whose pattern means a text. -/
def replacementCall (plain : List Char) (r : Pattern.Replacement) (q q' place : Place)
    (subject : Node) : Node :=
  .call "replace" place
    [subject, .literal (.string (String.ofList plain)) q,
      .literal (.string (String.ofList (r.expand (Pattern.onlyWhole plain)))) q'] none

/-- **What stands in for a replacement** depends on what it reads, and on whether the pattern means a
    text. -/
theorem replaceRewrite_literals :
    replaceRewrite (replacementArgs source text q q' subject) place =
      (readReplacement source text).map fun read =>
        (plainPattern? (.literal (.string source) q)).map fun plain =>
          replacementCall plain read.2 q q' place subject := by
  have hpattern : literalPattern? (replacementArgs source text q q' subject) =
      (patternOf (.string source)).map some := rfl
  unfold replaceRewrite readReplacement
  rw [hpattern]
  cases hp : patternOf (.string source) with
  | error e => rfl
  | ok p =>
      show (replacementOf text p >>= fun _ => _) =
        ((replacementOf text p).map fun r => (p, r)).map _
      cases hr : replacementOf text p with
      | error e => rfl
      | ok r =>
          simp only [bind, Except.bind]
          cases hplain : plainPattern? (.literal (.string source) q) with
          | none => rfl
          | some plain =>
              obtain ⟨_, _, heq, hs, -⟩ := plainPattern?_eq_some hplain
              cases heq
              simp only [forPlainText_of_replacementOf hs hp hr]
              rfl

/-- A replacement gives a text from what it reads and the subject. -/
theorem execute_regReplace_literals (v : Value) (w : World) :
    regReplace.execute [.string source, .string text, v] place w =
      (raiseAt place ((readReplacement source text).map fun read =>
        textValue (read.2.replaceAll read.1 v.render.toList.toArray)), w) := by
  show (raiseAt place (do
      let p ← patternOf (.string source)
      let r ← replacementOf text p
      pure (textValue (r.replaceAll p v.render.toList.toArray))), w) = _
  unfold readReplacement
  cases patternOf (.string source) with
  | error e => rfl
  | ok p =>
      show (raiseAt place (replacementOf text p >>= fun r => _), w) =
        (raiseAt place (((replacementOf text p).map _).map _), w)
      cases replacementOf text p with
      | error e => rfl
      | ok r => rfl

/-- A pattern that means a text is in order, unless the text is too long. -/
theorem patternOf_plainText {plain : List Char}
    (hs : Pattern.plainText? source.toList = some plain) (hne : plain ≠ [])
    (hsize : Pattern.plainCost plain ≤ Pattern.sizeLimit) :
    patternOf (.string source) = .ok ⟨source, {}, plainProgram plain, Pattern.Groups.empty⟩ := by
  have hcompile := Pattern.compile_plainText hs hne
  rw [if_neg (Nat.not_lt.2 hsize)] at hcompile
  exact patternOf_of_compile hcompile

theorem plainPattern?_plainText {plain : List Char}
    (hs : Pattern.plainText? source.toList = some plain) (hne : plain ≠ []) (q : Place) :
    plainPattern? (.literal (.string source) q) = some plain := by
  have htext : ((Node.literal (.string source) q).text?.bind fun s =>
      Pattern.plainText? s.toList) = some plain := hs
  unfold plainPattern?
  rw [htext]
  cases plain with
  | nil => exact absurd rfl hne
  | cons c r => rfl

/-- **Where the pattern means a text, a call stands in for the replacement** exactly if what is put in
    refers to no group but the whole match. -/
theorem replaceRewrite_plainText {plain : List Char}
    (hs : Pattern.plainText? source.toList = some plain) (hne : plain ≠ [])
    (hsize : Pattern.plainCost plain ≤ Pattern.sizeLimit) :
    replaceRewrite (replacementArgs source text q q' subject) place =
      match Pattern.Segment.parse 0 (fun _ => none) text.toList with
      | .ok segments => .ok (some (replacementCall plain ⟨segments⟩ q q' place subject))
      | .error e => .error (.replacement e) := by
  rw [replaceRewrite_literals, readReplacement, patternOf_plainText hs hne hsize,
    plainPattern?_plainText hs hne]
  show Except.map _ (Except.map _ (replacementOf text _)) = _
  have hparse : Pattern.Replacement.parse text ⟨source, {}, plainProgram plain, .empty⟩ =
    (Pattern.Segment.parse 0 (fun _ => none) text.toList).map Pattern.Replacement.mk := rfl
  unfold replacementOf
  rw [hparse]
  cases Pattern.Segment.parse 0 (fun _ => none) text.toList with
  | error e => rfl
  | ok segments => rfl

/-- What is done with a result has no part in the exceptions. -/
theorem raiseAt_map_eq_error_iff {α β : Type} {x : Except Fault α} {f : α → β} {e : Exception} :
    raiseAt place (x.map f) = .error e ↔ raiseAt place x = .error e := by
  cases x with
  | ok a => exact ⟨nofun, nofun⟩
  | error fault => exact ⟨fun h => by cases h; rfl, fun h => by cases h; rfl⟩

/-- Replacing plain text gives a text, whatever the subject is. -/
theorem execute_replace_texts (v : Value) (what put : List Char) (w : World) :
    replace.execute [v, .string (String.ofList what), .string (String.ofList put)] place w =
      (.ok (textValue (substitute v.render.toList what put)), w) := by
  show (raiseAt place (.ok (textValue (substitute v.render.toList (String.ofList what).toList
    (String.ofList put).toList))), w) = _
  rw [String.toList_ofList, String.toList_ofList]
  rfl

/-- **An exception keeps calls from standing in for a replacement** exactly where the replacement
    raises it. -/
theorem regReplace_rewrite_eq_error_iff {e : Exception} :
    regReplace.rewrite (replacementArgs source text q q' subject) place = .error e ↔
      ∀ v w, regReplace.execute [.string source, .string text, v] place w = (.error e, w) := by
  have hread : ∀ v w, regReplace.execute [.string source, .string text, v] place w = (.error e, w) ↔
      raiseAt place (readReplacement source text) = .error e := by
    intro v w
    rw [execute_regReplace_literals, Prod.mk.injEq, raiseAt_map_eq_error_iff]
    exact and_iff_left rfl
  show raiseAt place (replaceRewrite (replacementArgs source text q q' subject) place) = _ ↔ _
  rw [replaceRewrite_literals, raiseAt_map_eq_error_iff]
  constructor
  · intro h v w
    exact (hread v w).2 h
  · intro h
    exact (hread .null (.fresh .empty)).1 (h _ _)

/-- **The two replacements are interchangeable.** Whatever the subject is: where a call stands in for
    the replacement, it is one of `replace` with the subject in front, and both give the same text
    for every value of the subject; and an exception keeps calls away exactly where the replacement
    raises that exception for every value. -/
theorem regReplace_rewrite_equivalent (source text : String) (q q' place : Place)
    (subject : Node) :
    (∀ n, regReplace.rewrite (replacementArgs source text q q' subject) place = .ok (some n) →
      ∃ what put,
        n = .call "replace" place
          [subject, .literal (.string what) q, .literal (.string put) q'] none ∧
        ∀ v w, ∃ result,
          regReplace.execute [.string source, .string text, v] place w = (.ok (.string result), w) ∧
          replace.execute [v, .string what, .string put] place w = (.ok (.string result), w)) ∧
    ∀ e, regReplace.rewrite (replacementArgs source text q q' subject) place = .error e ↔
      ∀ v w, regReplace.execute [.string source, .string text, v] place w = (.error e, w) := by
  constructor
  · intro n hn
    obtain ⟨_, _, _, _, _, plain, expanded, p, r, hargs, hs, hne, hp, hr, he, rfl⟩ :=
      replaceRewrite_eq_some (raiseAt_eq_ok hn)
    cases hargs
    refine ⟨_, _, rfl, ?_⟩
    intro v w
    refine ⟨_, ?_, execute_replace_texts v plain expanded w⟩
    rw [execute_regReplace_plain hs hne hp hr he]
    exact execute_replace_texts v plain expanded w
  · intro e
    exact regReplace_rewrite_eq_error_iff

/-- The text `a.b`, which is quoted as a pattern, is put between angle brackets by both calls; a group
    that the pattern does not have keeps calls away, and is what the replacement raises. -/
theorem regReplace_rewrite_equivalent_quoted :
    regReplace.rewrite (replacementArgs "\\Qa.b\\E" "<$0>" default default (.literal .null default))
        default =
      .ok (some (.call "replace" default
        [.literal .null default, .literal (.string "a.b") default,
          .literal (.string "<a.b>") default] none)) ∧
    regReplace.execute [.string "\\Qa.b\\E", .string "<$0>", .string "xa.b"] default
      (.fresh .empty) = (.ok (.string "x<a.b>"), .fresh .empty) ∧
    regReplace.execute [.string "\\Qa.b\\E", .string "$1", .string "xa.b"] default
      (.fresh .empty) = (.error ⟨.replacement (.numberUnknown 1), default⟩, .fresh .empty) := by
  have hs : Pattern.plainText? "\\Qa.b\\E".toList = some "a.b".toList := by decide
  have hput : Pattern.Segment.parse 0 (fun _ => none) "<$0>".toList =
      .ok [.plain ['<'], .group 0, .plain ['>']] := by
    simp [Pattern.Segment.parse, Pattern.Segment.number]
    rfl
  have hgroup : Pattern.Segment.parse 0 (fun _ => none) "$1".toList = .error (.numberUnknown 1) := by
    simp [Pattern.Segment.parse]
  have hreplaced := @replaceRewrite_plainText _ "<$0>" default default default
    (.literal .null default) _ hs (by decide) (by decide)
  have hrefused := @replaceRewrite_plainText _ "$1" default default default
    (.literal .null default) _ hs (by decide) (by decide)
  rw [hput] at hreplaced
  rw [hgroup] at hrefused
  have hn := congrArg (raiseAt default) hreplaced
  refine ⟨hn, ?_, ((regReplace_rewrite_equivalent _ _ _ _ _ _).2 _).1
    (congrArg (raiseAt default) hrefused) _ _⟩
  obtain ⟨what, put, hcall, hboth⟩ := (regReplace_rewrite_equivalent _ _ _ _ _ _).1 _ hn
  cases hcall
  obtain ⟨result, hpattern, htext⟩ := hboth (.string "xa.b") (.fresh .empty)
  rw [hpattern]
  exact htext.symm.trans rfl

/-! ## 2. Splits -/

/-- **Where the pattern means a text, a call stands in for the split.** -/
theorem splitRewrite_plainText {plain : List Char}
    (hs : Pattern.plainText? source.toList = some plain) (hne : plain ≠ [])
    (hsize : Pattern.plainCost plain ≤ Pattern.sizeLimit) (rest : List Node) :
    splitRewrite (.literal (.string source) q :: rest) place =
      .ok (some (.call "split" place (.literal (.string (String.ofList plain)) q :: rest) none)) := by
  have hpattern : literalPattern? (.literal (.string source) q :: rest) =
      (patternOf (.string source)).map some := rfl
  unfold splitRewrite
  rw [hpattern, patternOf_plainText hs hne hsize]
  simp only [bind, Except.bind, Except.map, plainPattern?_plainText hs hne]
  rfl

/-- A limit that is not in order raises an exception of a cast. -/
theorem kind_of_cutsFor {limit : Option Value} {fault : Fault} (h : cutsFor limit = .error fault) :
    fault.kind = .cast :=
  List.mem_singleton.1 (faultsIn_cutsFor limit fault h)

/-- A split at plain text gives the pieces, if the limit is in order. -/
theorem execute_split_texts (d : List Char) (v : Value) (limit : Option Value) (w : World) :
    split.execute (.string (String.ofList d) :: v :: limit.toList) place w =
      (raiseAt place ((cutsFor limit).map fun cuts =>
        textsValue (pieces d cuts v.render.toList)), w) := by
  show (raiseAt place (do
      let cuts ← cutsFor (Value.string (String.ofList d) :: v :: limit.toList)[2]?
      pure (textsValue (pieces (String.ofList d).toList cuts v.render.toList))), w) = _
  rw [getElem?_limit, String.toList_ofList]
  rfl

/-- **The two splits are interchangeable.** The call that stands in for a split with a literal pattern
    is one of `split` with the same other arguments. For every subject and every limit, given or
    not: both give the same pieces, or the limit is not in order and both raise the same exception. -/
theorem regSplit_rewrite_equivalent {source : String} {q place : Place} {rest : List Node} {n : Node}
    (h : regSplit.rewrite (.literal (.string source) q :: rest) place = .ok (some n)) :
    ∃ d, n = .call "split" place (.literal (.string d) q :: rest) none ∧
      ∀ (v : Value) (limit : Option Value) (w : World),
        (∀ cuts, cutsFor limit = .ok cuts → ∃ parts,
          regSplit.execute (.string source :: v :: limit.toList) place w =
            (.ok (textsValue parts), w) ∧
          split.execute (.string d :: v :: limit.toList) place w = (.ok (textsValue parts), w)) ∧
        ∀ fault, cutsFor limit = .error fault → fault.kind = .cast ∧
          regSplit.execute (.string source :: v :: limit.toList) place w =
            (.error ⟨fault, place⟩, w) ∧
          split.execute (.string d :: v :: limit.toList) place w = (.error ⟨fault, place⟩, w) := by
  obtain ⟨_, _, _, plain, p, hargs, hs, hne, hp, rfl⟩ := splitRewrite_eq_some (raiseAt_eq_ok h)
  cases hargs
  refine ⟨_, rfl, ?_⟩
  intro v limit w
  have hboth := execute_regSplit_plain hs hne hp (v :: limit.toList) place w
  have hsplit := @execute_split_texts place plain v limit w
  constructor
  · intro cuts hcuts
    rw [hcuts] at hsplit
    exact ⟨_, hboth.trans hsplit, hsplit⟩
  · intro fault hfault
    rw [hfault] at hsplit
    exact ⟨kind_of_cutsFor hfault, hboth.trans hsplit, hsplit⟩

/-- The text `::` cuts with the largest limit there is, and both calls refuse a limit that is an
    array. -/
theorem regSplit_rewrite_equivalent_largest :
    regSplit.rewrite [.literal (.string "::") default, .literal .null default] default =
      .ok (some (.call "split" default
        [.literal (.string "::") default, .literal .null default] none)) ∧
    regSplit.execute [.string "::", .string "a::b:::", .integer Int64.maxValue] default
        (.fresh .empty) =
      (.ok (textsValue ["a".toList, "b".toList, ":".toList]), .fresh .empty) ∧
    regSplit.execute [.string "::", .string "a", Value.ofList []] default (.fresh .empty) =
      (.error ⟨.notInteger "array", default⟩, .fresh .empty) := by
  have hs : Pattern.plainText? "::".toList = some "::".toList := by decide
  have hn := congrArg (raiseAt default) (@splitRewrite_plainText "::" default default _ hs
    (by decide) (by decide) [.literal .null default])
  obtain ⟨d, hcall, hboth⟩ := regSplit_rewrite_equivalent hn
  cases hcall
  refine ⟨hn, ?_, ?_⟩
  · obtain ⟨parts, hpattern, htext⟩ :=
      (hboth (.string "a::b:::") (some (.integer Int64.maxValue)) (.fresh .empty)).1 _ rfl
    refine hpattern.trans (htext.symm.trans ?_)
    rfl
  · exact ((hboth (.string "a") (some (Value.ofList [])) (.fresh .empty)).2 _ rfl).2.1

end CallScript.Function
