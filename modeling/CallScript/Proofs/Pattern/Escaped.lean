import CallScript.Proofs.Pattern.Occurrences
import CallScript.Proofs.Text.Leftmost

/-!
# Escaped patterns

A pattern that is an escaped text finds exactly the text, whatever is in it: an escape is never taken
for the beginning of a quoted section, and each character that has a meaning loses it.

* `compile_escape`: such a pattern compiles to the program of the text, unless the text is too long;
* `findAll_empty`: the empty text is found between any two characters;
* `findAll_leftmost`: every text is found at its leftmost occurrences.
-/

namespace CallScript.Pattern

open Text (Leftmost bytesBefore)

/-! ## 1. Reading -/

/-- An escaped text is read to its characters, and it has no groups. -/
theorem parse_escape (s : List Char) :
    Expr.parse {} (expandQuotes (escape s)) =
      .ok (Expr.ofSequence (s.map Expr.char), Groups.empty) := by
  show Reading.readAll ⟨plainMode, [], [], [], Groups.empty⟩ (expandQuotes (escape s)) = _
  rw [expandQuotes_of_unquoted (unquoted_escape s), Reading.readAll_escape rfl,
    Reading.finish_pushChars]

/-- **An escaped text compiles to the program of the text**, if that is not too large. -/
theorem compile_escape {s : List Char} (hsize : plainCost s ≤ sizeLimit) :
    compile (String.ofList (escape s)) {} =
      .ok ⟨String.ofList (escape s), {}, plainProgram s, Groups.empty⟩ := by
  have hparse := parse_escape s
  rw [← @String.toList_ofList (escape s)] at hparse
  have hfits : ¬ sizeLimit < (Expr.ofSequence (s.map Expr.char)).cost + frameCost := by
    cases s with
    | nil => decide
    | cons c s =>
        rw [cost_ofSequence_chars (List.cons_ne_nil c s)]
        exact Nat.not_lt.2 hsize
  rw [compile_of_parse_chars hparse, if_neg hfits]

/-! ## 2. The empty text -/

section

variable {subject : Subject} {place : Nat}

/-- The empty text is found wherever one looks for it. -/
theorem search_empty (h : place ≤ subject.size) :
    (plainProgram []).search subject place = some (matchAt [] place) := by
  rw [search_plain h, List.range'_succ, List.find?_cons]
  rfl

/-- Behind a place it is found at all places that are left. -/
theorem findBehind_empty (h : place ≤ subject.size) :
    (plainProgram []).findBehind subject place =
      (List.range' (place + 1) (subject.size - place)).map (matchAt []) := by
  refine place_induction subject (P := fun place =>
    (plainProgram []).findBehind subject place =
      (List.range' (place + 1) (subject.size - place)).map (matchAt [])) (fun place h ih => ?_) h
  have hnext : (plainProgram []).nextMatch? subject place =
      (plainProgram []).search subject (place + 1) :=
    Program.nextMatch?_of_empty (search_empty h) ⟨rfl, rfl⟩
  rcases Nat.eq_or_lt_of_le h with heq | hlt
  · have hnone : (plainProgram []).search subject (place + 1) = none := if_pos (by omega)
    rw [Program.findBehind_none (hnext.trans hnone), heq, Nat.sub_self]
    rfl
  · have hleft : subject.size - place = subject.size - (place + 1) + 1 := by omega
    rw [Program.findBehind_some (hnext.trans (search_empty hlt)), hleft, List.range'_succ,
      List.map_cons]
    exact congrArg _ (ih (place + 1) (Nat.lt_succ_self _) hlt)

/-- **The empty text is found in front of each character and at the end.** -/
theorem findAll_empty (subject : Subject) :
    (plainProgram []).findAll subject =
      (List.range (subject.size + 1)).map (matchAt []) := by
  have hbehind : (plainProgram []).findBehind subject 0 =
      (List.range' 1 subject.size).map (matchAt []) := findBehind_empty (Nat.zero_le _)
  rw [Program.findAll, search_empty (Nat.zero_le _), List.range_eq_range', List.range'_succ,
    List.map_cons]
  exact congrArg _ hbehind

end

/-! ## 3. Every text -/

/-- **A text is found exactly at its leftmost occurrences**, in bytes, in whichever way one goes
    through the matches. -/
theorem findAll_leftmost (s t : List Char) :
    (∃ found, Leftmost (String.ofList s) (String.ofList t) found ∧
      ((plainProgram s).findAll t.toArray).map (Match.bytes t.toArray) =
        found.map fun k => (k, k + (String.ofList s).utf8ByteSize)) ∧
    (plainProgram s).findTouching t.toArray = (plainProgram s).findAll t.toArray := by
  by_cases hs : s = []
  · subst hs
    have hall := findAll_empty t.toArray
    refine ⟨⟨_, Text.leftmost_empty t, ?_⟩, Program.findTouching_eq_findAll fun m hm => ?_⟩
    · rw [hall, List.map_map, List.map_map]
      rfl
    · rw [hall] at hm
      obtain ⟨place, -, rfl⟩ := List.mem_map.1 hm
      exact if_neg (Nat.lt_irrefl _)
  · obtain ⟨found, hfound, hmatches⟩ :=
      @findBehind_occurrences s t.toArray hs 0 (Nat.zero_le _)
    have hpos : 0 < (String.ofList s).utf8ByteSize := by
      refine Nat.pos_of_ne_zero fun hzero => hs ?_
      rw [String.utf8ByteSize_eq_zero_iff] at hzero
      rw [← @String.toList_ofList s, hzero]
      rfl
    rw [← findAll_plain hs] at hmatches
    exact ⟨⟨found, hfound.leftmost hpos, hmatches⟩, findTouching_plain hs _⟩

end CallScript.Pattern
