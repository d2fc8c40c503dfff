import CallScript.Proofs.Pattern.PlainMatches
import CallScript.Proofs.Pattern.Touching
import CallScript.Proofs.Text.Occurrences

/-!
# Matches of plain patterns as occurrences

A pattern that means nothing but a text finds exactly what a pass for that text finds, byte for byte.

* `compile_plainText`: such a pattern compiles, unless the text is too long for a program;
* `findBehind_occurrences`: its matches from a place on are the occurrences from that place on;
* `findAll_occurrences_of_plainText`: all of this for the pattern as it is written.
-/

namespace CallScript.Pattern

open Text (StandsAt Occurrences bytesBefore occursAt)

/-! ## 1. Compiling -/

/-- The program of a text that is not empty has one step for each character. -/
theorem cost_ofSequence_chars {plain : List Char} (hne : plain ≠ []) :
    (Expr.ofSequence (plain.map Expr.char)).cost = Expr.stepCost * plain.length := by
  have hall : ∀ s : List Char,
      Expr.costAll (s.map Expr.char) = Expr.stepCost * s.length := by
    intro s
    induction s with
    | nil => rfl
    | cons c s ih =>
        show Expr.stepCost + Expr.costAll (s.map Expr.char) = _
        rw [ih, List.length_cons, Nat.mul_succ, Nat.add_comm]
  match plain with
  | [] => exact absurd rfl hne
  | [c] => rfl
  | c :: d :: s => exact hall (c :: d :: s)

/-- The size of the program of a plain text. -/
def plainCost (plain : List Char) : Nat := Expr.stepCost * plain.length + frameCost

/-- A pattern that is read to the characters of a text compiles to the program of the text, unless
    that is too large. -/
theorem compile_of_parse_chars {source : String} {plain : List Char}
    (h : Expr.parse {} (expandQuotes source.toList) =
      .ok (Expr.ofSequence (plain.map Expr.char), Groups.empty)) :
    compile source {} =
      if sizeLimit < (Expr.ofSequence (plain.map Expr.char)).cost + frameCost then .error .tooLarge
      else .ok ⟨source, {}, plainProgram plain, Groups.empty⟩ := by
  unfold compile
  rw [h]
  dsimp only
  split
  · rfl
  · have hrestrict : ∀ numbers, Groups.empty.restrict numbers = Groups.empty := fun _ => rfl
    rw [hrestrict]
    exact congrArg (fun program => Except.ok (Pattern.mk source {} program Groups.empty))
      (compile_chars plain)

/-- **A pattern that means a text compiles to the program of the text**, unless that is too large. -/
theorem compile_plainText {source : String} {plain : List Char}
    (hs : plainText? source.toList = some plain) (hne : plain ≠ []) :
    compile source {} =
      if sizeLimit < plainCost plain then .error .tooLarge
      else .ok ⟨source, {}, plainProgram plain, Groups.empty⟩ := by
  rw [compile_of_parse_chars (parse_plain hs), cost_ofSequence_chars hne]
  rfl

/-! ## 2. Matches in bytes -/

/-- The bytes that a match takes up in the subject: where it begins and where it ends. -/
def Match.bytes (subject : Subject) (m : Match) : Nat × Nat :=
  (bytesBefore subject.toList m.start, bytesBefore subject.toList m.stop)

section

variable {d : List Char} {subject : Subject}

/-- An occurrence is as long in bytes as the text. -/
theorem bytes_matchAt {start : Nat} (h : occursAt d subject.toList start = true) :
    (matchAt d start).bytes subject =
      (bytesBefore subject.toList start,
        bytesBefore subject.toList start + (String.ofList d).utf8ByteSize) := by
  have htake : (subject.toList.drop start).take d.length = d := by
    rw [drop_of_occursAt h, List.take_left]
  show (bytesBefore subject.toList start, bytesBefore subject.toList (start + d.length)) = _
  rw [Text.bytesBefore_add, htake]

/-- **The matches from a place on are the occurrences from there on.** The induction is on what is
    left of the subject: the first match is the first occurrence, and both go on behind it. -/
theorem findBehind_occurrences (hd : d ≠ []) {place : Nat} (h : place ≤ subject.size) :
    ∃ found, Occurrences (String.ofList d) (String.ofList subject.toList)
        (bytesBefore subject.toList place) found ∧
      ((plainProgram d).findBehind subject place).map (Match.bytes subject) =
        found.map fun k => (k, k + (String.ofList d).utf8ByteSize) := by
  refine place_induction subject (P := fun place => ∃ found,
    Occurrences (String.ofList d) (String.ofList subject.toList)
        (bytesBefore subject.toList place) found ∧
      ((plainProgram d).findBehind subject place).map (Match.bytes subject) =
        found.map fun k => (k, k + (String.ofList d).utf8ByteSize)) (fun place h ih => ?_) h
  have hsize : subject.toList.length = subject.size := Array.length_toList
  have hpos := List.length_pos_iff.2 hd
  rcases findBehind_cases hd h with ⟨hnil, hnone⟩ | ⟨start, hle, hocc, hbefore, hcons⟩
  · refine ⟨[], .of_not_occursAt hd (by omega) fun k hk hlt => ?_, by rw [hnil]; rfl⟩
    have hnot := hnone (k - place) (by rw [List.length_drop]; omega)
    rwa [Text.occursAt_drop, Nat.add_sub_cancel' hk] at hnot
  · have hstop := stop_le_of_occursAt hd hocc
    obtain ⟨later, hlater, hmatches⟩ := ih (start + d.length) (by omega) hstop
    refine ⟨bytesBefore subject.toList start :: later,
      .of_first hle (by omega) hocc (fun k hk hlt => ?_) hlater, ?_⟩
    · have hnot := hbefore (k - place) (by rw [length_slice (by omega)]; omega)
      rwa [← drop_eq_slice_append subject hle, Text.occursAt_drop, Nat.add_sub_cancel' hk] at hnot
    · rw [hcons, List.map_cons, List.map_cons, bytes_matchAt hocc, hmatches]

/-- A match of a text that is not empty is not empty. -/
theorem start_lt_stop_of_search (hd : d ≠ []) {place : Nat} {m : Match}
    (h : (plainProgram d).search subject place = some m) : m.start < m.stop := by
  rw [search_plain (Program.resume_gt h).2] at h
  obtain ⟨start, -, rfl⟩ := Option.map_eq_some_iff.1 h
  exact Nat.lt_add_of_pos_right (List.length_pos_iff.2 hd)

/-- **Both ways to go through the matches find the same ones**: none is touched by an empty match. -/
theorem findTouching_plain (hd : d ≠ []) (subject : Subject) :
    (plainProgram d).findTouching subject = (plainProgram d).findAll subject := by
  refine Program.findTouching_eq_findAll fun m _ => ?_
  unfold Program.touching?
  split
  · cases hsearch : (plainProgram d).search subject m.stop with
    | none => rfl
    | some e =>
        have hlt := start_lt_stop_of_search hd hsearch
        exact Option.filter_some_neg (by simp; omega)
  · rfl

end

/-! ## 3. The pattern as it is written -/

/-- Where the text `a.a` stands in `éa.a.a`: twice, with a character in common. -/
theorem standsAt_overlapping (k : Nat) : StandsAt "a.a" "éa.a.a" k ↔ k = 2 ∨ k = 4 := by
  refine (@Text.standsAt_iff "a.a".toList "éa.a.a".toList k).trans ⟨?_, ?_⟩
  · rintro ⟨j, hj, hocc, rfl⟩
    have hall : ∀ j ≤ "éa.a.a".toList.length, occursAt "a.a".toList "éa.a.a".toList j = true →
        bytesBefore "éa.a.a".toList j = 2 ∨ bytesBefore "éa.a.a".toList j = 4 := by decide
    exact hall j hj hocc
  · rintro (rfl | rfl)
    · exact ⟨1, by decide, by decide, by decide⟩
    · exact ⟨3, by decide, by decide, by decide⟩

/-- A pass finds it there once. -/
theorem occurrences_overlapping : Occurrences "a.a" "éa.a.a" 0 [2] := by
  refine .next (Nat.zero_le _) ((standsAt_overlapping 2).2 (Or.inl rfl)) ?_ (.done ?_)
  · intro k _ hk h
    rcases (standsAt_overlapping k).1 h with rfl | rfl <;> omega
  · intro k hk h
    have hk : 5 ≤ k := hk
    rcases (standsAt_overlapping k).1 h with rfl | rfl <;> omega

/-- **A pattern that means nothing but a text compiles, has no groups, and its successive matches are
    the occurrences of the text**, in bytes, in whichever way one goes through them. The text must
    not be too long for a program. -/
theorem findAll_occurrences_of_plainText {source : String} {plain : List Char}
    (hs : plainText? source.toList = some plain) (hne : plain ≠ [])
    (hsize : plainCost plain ≤ sizeLimit) :
    ∃ p, compile source {} = .ok p ∧ p.groupCount = 0 ∧ p.namedGroups = [] ∧
      ∀ subject : String, ∃ found, Occurrences (String.ofList plain) subject 0 found ∧
        (p.program.findAll subject.toList.toArray).map (Match.bytes subject.toList.toArray) =
          found.map (fun k => (k, k + (String.ofList plain).utf8ByteSize)) ∧
        p.program.findTouching subject.toList.toArray =
          p.program.findAll subject.toList.toArray := by
  refine ⟨⟨source, {}, plainProgram plain, Groups.empty⟩, ?_, rfl, rfl, ?_⟩
  · rw [compile_plainText hs hne, if_neg (Nat.not_lt.2 hsize)]
  · intro subject
    obtain ⟨found, hfound, hmatches⟩ :=
      @findBehind_occurrences plain subject.toList.toArray hne 0 (Nat.zero_le _)
    rw [← findAll_plain hne] at hmatches
    rw [List.toList_toArray, String.ofList_toList, Text.bytesBefore_zero] at hfound
    exact ⟨found, hfound, hmatches, findTouching_plain hne _⟩

/-- The quoted text is found behind the two bytes of the first character, and not once more where it
    overlaps itself. -/
theorem findAll_occurrences_of_quoted :
    plainText? "\\Qa.a\\E".toList = some "a.a".toList ∧
      ∃ p, compile "\\Qa.a\\E" {} = .ok p ∧ p.groupCount = 0 ∧ p.namedGroups = [] ∧
        (p.program.findAll "éa.a.a".toList.toArray).map (Match.bytes "éa.a.a".toList.toArray) =
          [(2, 5)] := by
  have hs : plainText? "\\Qa.a\\E".toList = some "a.a".toList := by decide
  obtain ⟨p, hp, hcount, hnames, hall⟩ :=
    findAll_occurrences_of_plainText hs (by decide) (by decide)
  obtain ⟨found, hfound, hmatches, -⟩ := hall "éa.a.a"
  refine ⟨hs, p, hp, hcount, hnames, ?_⟩
  rw [hmatches, hfound.unique occurrences_overlapping]
  rfl

end CallScript.Pattern
