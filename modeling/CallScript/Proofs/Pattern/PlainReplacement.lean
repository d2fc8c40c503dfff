import CallScript.Pattern.Replacement

/-!
# Replacements that mean a text

A replacement means a text where each backslash and each `$` in the text has a backslash in front of
it. The replacement `$0` means the match itself.

* `parse_escape`, `expand_ofText`: an escaped text is read to the text, and gives it for every match;
* `parse_wholeMatch`, `forMatch_wholeMatch`: `$0` gives the text of the match.
-/

namespace CallScript.Pattern

/-! ## 1. Reading without references -/

namespace Segment

variable {count : Nat} {find? : String → Option Nat}

/-- A character that has no meaning is read as it stands. -/
theorem parse_plain {c : Char} (hslash : c ≠ '\\') (hdollar : c ≠ '$') (s : List Char) :
    parse count find? (c :: s) = (parse count find? s).map (consChar c) := by
  rw [parse.eq_def]
  grind

/-- A character behind a backslash is read as it stands. -/
theorem parse_escaped (c : Char) (s : List Char) :
    parse count find? ('\\' :: c :: s) = (parse count find? s).map (consChar c) := by
  rw [parse]

/-- A text as segments. -/
def ofText : List Char → List Segment
  | [] => []
  | c :: s => [.plain (c :: s)]

theorem consChar_ofText (c : Char) (s : List Char) : consChar c (ofText s) = ofText (c :: s) := by
  cases s with
  | nil => rfl
  | cons d s => rfl

end Segment

/-! ## 2. Escaped texts -/

namespace Replacement

/-- A text with a backslash in front of each backslash and each `$`. -/
def escape (s : List Char) : List Char :=
  s.flatMap fun c => if c = '\\' ∨ c = '$' then ['\\', c] else [c]

/-- **An escaped text is read to the text.** -/
theorem parse_escape (count : Nat) (find? : String → Option Nat) (s : List Char) :
    Segment.parse count find? (escape s) = .ok (Segment.ofText s) := by
  induction s with
  | nil =>
      show Segment.parse count find? [] = _
      rw [Segment.parse]
      rfl
  | cons c s ih =>
      have hcons : escape (c :: s) =
          (if c = '\\' ∨ c = '$' then ['\\', c] else [c]) ++ escape s := rfl
      by_cases hc : c = '\\' ∨ c = '$'
      · rw [hcons, if_pos hc, List.cons_append, List.singleton_append, Segment.parse_escaped, ih]
        exact congrArg Except.ok (Segment.consChar_ofText c s)
      · rw [not_or] at hc
        rw [hcons, if_neg (not_or.2 hc), List.singleton_append, Segment.parse_plain hc.1 hc.2, ih]
        exact congrArg Except.ok (Segment.consChar_ofText c s)

/-- The replacement that a text stands for. -/
def ofText (s : List Char) : Replacement := ⟨Segment.ofText s⟩

theorem expand_ofText (s : List Char) (groupText : Nat → List Char) :
    (ofText s).expand groupText = s := by
  cases s with
  | nil => rfl
  | cons c s => exact List.append_nil _

/-! ## 3. The whole match -/

/-- The replacement that leaves every match as it is. -/
def wholeMatch : Replacement := ⟨[.group 0]⟩

theorem parse_wholeMatch (count : Nat) (find? : String → Option Nat) :
    Segment.parse count find? ['$', '0'] = .ok wholeMatch.segments := by
  have hgroup : Segment.parse count find? ['$', '0'] =
      (Segment.parse count find? []).map (.group 0 :: ·) := by
    simp [Segment.parse, Segment.number]
  rw [hgroup, Segment.parse]
  rfl

theorem forMatch_wholeMatch (subject : Subject) (m : Match) :
    wholeMatch.forMatch subject m = m.text subject := List.append_nil _

end Replacement

end CallScript.Pattern
