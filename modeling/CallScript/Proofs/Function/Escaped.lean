import CallScript.Proofs.Function.Addresses
import CallScript.Proofs.Function.Listing
import CallScript.Proofs.Function.Pieces
import CallScript.Proofs.Function.Plain
import CallScript.Proofs.Pattern.Escaped

/-!
# Escaped texts as patterns

A text that was escaped finds itself, and where it is a pattern the functions on patterns do what
those on plain text do with the text.

* `regEscape_matches_itself`: what an escaped text finds, and what is replaced and split with it.
-/

namespace CallScript.Function

open Pattern (plainProgram plainCost sizeLimit matchAt Replacement)
open Text (Leftmost)

variable {p : Pattern} {s : List Char}

/-! ## 1. The pattern -/

/-- The pattern of an escaped text. -/
def escapedPattern (s : List Char) : Pattern :=
  ⟨String.ofList (Pattern.escape s), {}, plainProgram s, Pattern.Groups.empty⟩

theorem patternOf_escape (hsize : plainCost s ≤ sizeLimit) :
    patternOf (.string (String.ofList (Pattern.escape s))) = .ok (escapedPattern s) :=
  patternOf_of_compile (Pattern.compile_escape hsize)

theorem execute_regEscape (s : String) (place : Place) (w : World) :
    regEscape.execute [.string s] place w =
      (.ok (.string (String.ofList (Pattern.escape s.toList))), w) := rfl

/-! ## 2. The text itself -/

theorem execute_arrayGet {t : Table Value} {i : Int64} {v : Value} (h : t.get? (.index i) = some v)
    (place : Place) (w : World) : arrayGet.execute [.array t, .integer i] place w = (.ok v, w) := by
  rw [execute_arrayGet_of_keyOf rfl, readAt_of_some h]

/-- In the text itself the text is found at the beginning. -/
theorem search_self (s : List Char) :
    (plainProgram s).search s.toArray 0 = some (matchAt s 0) := by
  have hocc : Text.occursAt s s 0 = true := Text.occursAt_iff.2 (List.prefix_refl s)
  rw [Pattern.search_plain (Nat.zero_le _), List.range'_succ,
    List.find?_cons_of_pos hocc]
  rfl

/-- The first match is the whole text. -/
theorem firstMatch_self (s : List Char) :
    ∃ t, firstMatch (escapedPattern s) s.toArray = .array t ∧
      t.get? (.index 0) = some (textValue s) := by
  have hocc : Text.occursAt s s.toArray.toList 0 = true := Text.occursAt_iff.2 (List.prefix_refl s)
  have hvalue : groupValue s.toArray (matchAt s 0) 0 = textValue s :=
    congrArg textValue (Pattern.slice_of_occursAt hocc)
  refine ⟨matchTable (escapedPattern s) s.toArray (matchAt s 0), ?_, ?_⟩
  · unfold firstMatch
    rw [show (escapedPattern s).program = plainProgram s from rfl, search_self]
  · rw [← hvalue]
    exact Table.indexed_associative.get?_set_self (.index 0) _

/-! ## 3. Calls -/

/-- **An escaped text finds itself and nothing else.** It can be compiled, unless it is too long, and
    its matches are the leftmost occurrences of the text, of which there is only one list, in
    whichever way one goes through them. So the text is the first match in itself; and if it is not
    empty, splitting at the pattern is splitting at the text, and replacing the pattern by an escaped
    text is replacing the one text by the other. -/
theorem regEscape_matches_itself (s : String) (hsize : plainCost s.toList ≤ sizeLimit)
    (place : Place) (w : World) :
    ∃ source p, regEscape.execute [.string s] place w = (.ok (.string source), w) ∧
      patternOf (.string source) = .ok p ∧
      (∀ t : String, ∃ found, (∀ ks, Leftmost s t ks ↔ ks = found) ∧
        (p.program.findAll t.toList.toArray).map (Pattern.Match.bytes t.toList.toArray) =
          found.map (fun k => (k, k + s.utf8ByteSize)) ∧
        p.program.findTouching t.toList.toArray = p.program.findAll t.toList.toArray) ∧
      (∃ m, regMatch.execute [.string source, .string s] place w = (.ok m, w) ∧
        arrayGet.execute [m, .integer 0] place w = (.ok (.string s), w)) ∧
      (s ≠ "" → ∀ rest, regSplit.execute (.string source :: rest) place w =
        split.execute (.string s :: rest) place w) ∧
      (s ≠ "" → ∀ (text : String) (subject : Value),
        regReplace.execute [.string source,
            .string (String.ofList (Replacement.escape text.toList)), subject] place w =
          replace.execute [subject, .string s, .string text] place w) := by
  have hp := patternOf_escape hsize
  have hne : s ≠ "" → s.toList ≠ [] := fun h => by simpa using h
  refine ⟨_, _, execute_regEscape s place w, hp, fun t => ?_, ?_, fun h rest => ?_,
    fun h text subject => ?_⟩
  · obtain ⟨⟨found, hfound, hmatches⟩, htouching⟩ := Pattern.findAll_leftmost s.toList t.toList
    simp only [String.ofList_toList] at hfound hmatches
    refine ⟨found, fun ks => ⟨fun h => h.unique hfound, ?_⟩, hmatches, htouching⟩
    rintro rfl
    exact hfound
  · obtain ⟨t, ht, hwhole⟩ := firstMatch_self s.toList
    refine ⟨.array t, ?_, ?_⟩
    · rw [execute_regMatch hp (.string s) place w]
      exact congrArg (fun m => (Except.ok m, w)) ht
    · rw [execute_arrayGet hwhole, textValue, String.ofList_toList]
  · have hsplit := execute_regSplit_of_program hp rfl (hne h) rest place w
    rwa [String.ofList_toList] at hsplit
  · have hr : replacementOf (Value.string (String.ofList (Replacement.escape text.toList))).render
        (escapedPattern s.toList) = .ok (Replacement.ofText text.toList) :=
      replacementOf_escape text.toList _
    have hreplace := execute_regReplace_of_program hp rfl (hne h) hr subject place w
    rwa [Replacement.expand_ofText, String.ofList_toList, String.ofList_toList] at hreplace

/-- A text that looks like the beginning of a quoted section is none when it is escaped. -/
theorem regEscape_matches_itself_quotation :
    plainCost "\\Q.".toList ≤ sizeLimit ∧
      regEscape.execute [.string "\\Q."] default (.fresh .empty) =
        (.ok (.string "\\\\Q\\."), .fresh .empty) ∧
      (∃ m, regMatch.execute [.string "\\\\Q\\.", .string "\\Q."] default (.fresh .empty) =
          (.ok m, .fresh .empty) ∧
        arrayGet.execute [m, .integer 0] default (.fresh .empty) =
          (.ok (.string "\\Q."), .fresh .empty)) ∧
      regReplace.execute [.string "\\\\Q\\.", .string "\\$0", .string "a\\Q.b"] default
          (.fresh .empty) =
        replace.execute [.string "a\\Q.b", .string "\\Q.", .string "$0"] default
          (.fresh .empty) := by
  have hsize : plainCost "\\Q.".toList ≤ sizeLimit := by decide
  obtain ⟨source, p, hescape, -, -, hself, -, hreplace⟩ :=
    regEscape_matches_itself "\\Q." hsize default (.fresh .empty)
  have hsource : regEscape.execute [.string "\\Q."] default (.fresh .empty) =
      (.ok (.string "\\\\Q\\."), .fresh .empty) := rfl
  obtain rfl : source = "\\\\Q\\." := by
    rw [hsource] at hescape
    simpa using hescape.symm
  exact ⟨hsize, hsource, hself, hreplace (by decide) "$0" (.string "a\\Q.b")⟩

end CallScript.Function
