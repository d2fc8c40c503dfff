import CallScript.Function.Pattern
import CallScript.Proofs.Pattern.PlainMatches
import CallScript.Proofs.Pattern.ReplacementGrammar

/-!
# Replacements for the matches of a pattern

The references of a replacement are to the groups of a pattern, by their numbers or by their names.

* `replacementOf_written`: which texts are read as replacements, what is raised for the others, and
  what a replacement stands for.
-/

namespace CallScript.Pattern

/-- A name is the name of a group that there is. -/
theorem Groups.numberOf?_le {groups : Groups} {name : String} {n : Nat}
    (h : groups.numberOf? name = some n) : n ≤ groups.count := by
  unfold Groups.numberOf? at h
  obtain ⟨i, hi, rfl⟩ := Option.map_eq_some_iff.1 h
  exact (List.findIdx?_eq_some_iff_findIdx_eq.1 hi).1

end CallScript.Pattern

namespace CallScript.Function

open Pattern (Broken Item Merged Replacement Segment WrittenFrom)

variable {text : String} {p : Pattern} {place : Place}

theorem replacementOf_eq_ok_iff {r : Replacement} :
    raiseAt place (replacementOf text p) = .ok r ↔
      Segment.parse p.groupCount p.groups.numberOf? text.toList = .ok r.segments := by
  unfold replacementOf Replacement.parse
  cases Segment.parse p.groupCount p.groups.numberOf? text.toList with
  | error why => exact ⟨nofun, nofun⟩
  | ok segments =>
      constructor
      · rintro ⟨⟩
        rfl
      · rintro ⟨⟩
        rfl

theorem replacementOf_eq_error_iff {e : Exception} :
    raiseAt place (replacementOf text p) = .error e ↔
      ∃ why, Segment.parse p.groupCount p.groups.numberOf? text.toList = .error why ∧
        e = ⟨.replacement why, place⟩ := by
  unfold replacementOf Replacement.parse
  cases Segment.parse p.groupCount p.groups.numberOf? text.toList with
  | ok segments => exact ⟨nofun, nofun⟩
  | error why =>
      constructor
      · rintro ⟨⟩
        exact ⟨why, rfl, rfl⟩
      · rintro ⟨_, ⟨⟩, rfl⟩
        rfl

/-- **A replacement is written from characters and references.** It is read exactly if its text is put
    together from such items, and otherwise there is a format exception at the place of the call, for
    the reason why the items end. What is read refers to groups of the pattern, has its plain texts
    put together, and for every match it stands for the texts of the items, one behind the other,
    where a group that took no part gives nothing. -/
theorem replacementOf_written (text : String) (p : Pattern) (place : Place) :
    ((∃ r, raiseAt place (replacementOf text p) = .ok r) ↔
      ∃ items, WrittenFrom p.groupCount p.groups.numberOf? text.toList items) ∧
    (∀ e, raiseAt place (replacementOf text p) = .error e ↔
      ∃ why, Broken p.groupCount p.groups.numberOf? text.toList why ∧
        e = ⟨.replacement why, place⟩ ∧ e.kind = .format) ∧
    ∀ r, raiseAt place (replacementOf text p) = .ok r →
      (∀ n, .group n ∈ r.segments → n ≤ p.groupCount) ∧ Merged r.segments ∧
        ∀ items, WrittenFrom p.groupCount p.groups.numberOf? text.toList items →
          ∀ subject m, r.forMatch subject m =
            items.flatMap (Item.text fun n => (m.groupText? subject n).getD []) := by
  refine ⟨⟨?_, ?_⟩, fun e => ⟨?_, ?_⟩, fun r hr => ?_⟩
  · rintro ⟨r, hr⟩
    obtain ⟨items, hitems, -⟩ := Pattern.parse_eq_ok_iff.1 (replacementOf_eq_ok_iff.1 hr)
    exact ⟨items, hitems⟩
  · rintro ⟨items, hitems⟩
    exact ⟨⟨Pattern.segmentsOf items⟩, replacementOf_eq_ok_iff.2 (Pattern.parse_of_written hitems)⟩
  · intro he
    obtain ⟨why, hwhy, rfl⟩ := replacementOf_eq_error_iff.1 he
    exact ⟨why, Pattern.parse_eq_error_iff.1 hwhy, rfl, rfl⟩
  · rintro ⟨why, hwhy, rfl, -⟩
    exact replacementOf_eq_error_iff.2 ⟨why, Pattern.parse_of_broken hwhy, rfl⟩
  · have hparse := replacementOf_eq_ok_iff.1 hr
    have hnames : ∀ name n, p.groups.numberOf? name = some n → n ≤ p.groupCount :=
      fun _ _ h => Pattern.Groups.numberOf?_le h
    have hrefers := Segment.refersWithin_parse hnames text.toList
    obtain ⟨items, -, hsegments⟩ := Pattern.parse_eq_ok_iff.1 hparse
    refine ⟨hrefers r.segments hparse, ?_, fun items hitems subject m => ?_⟩
    · rw [← hsegments]
      exact Pattern.merged_segmentsOf items
    · have hsegments : r.segments = Pattern.segmentsOf items :=
        Except.ok.inj (hparse.symm.trans (Pattern.parse_of_written hitems))
      rw [← Pattern.expand_segmentsOf, ← hsegments]
      rfl

end CallScript.Function
