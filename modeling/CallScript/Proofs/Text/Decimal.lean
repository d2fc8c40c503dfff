import CallScript.Text.Decimal

/-!
# What decimal texts write

Integers are written with an optional minus sign and a run of digits (`Decimal.Numeral`). Which number
such a text writes is said without reading it (`Decimal.Writes`): the value of its digits, the first of
them being the highest, under its sign.

* `parse?_eq_some_iff`: a numeral is read to a number exactly when it writes that number. A numeral that
  does not fit writes no 64-bit integer, and so it is read to none.
* `numeral_render`: what is written for an integer is a numeral.
-/

namespace CallScript.Decimal

/-- A run of ASCII digits, at least one. -/
def Digits (ds : List Char) : Prop := ds ≠ [] ∧ ∀ c ∈ ds, c.isDigit = true

/-- The text is a run of digits, with a minus sign in front of it or without one. -/
def Numeral (written : String) : Prop :=
  ∃ ds, Digits ds ∧ (written.toList = ds ∨ written.toList = '-' :: ds)

/-- The text is a numeral, and the integer is the value of its digits under its sign. -/
def Writes (written : String) (n : Int64) : Prop :=
  ∃ ds, Digits ds ∧
    (written.toList = ds ∧ n.toInt = Nat.ofDigitChars 10 ds 0 ∨
      written.toList = '-' :: ds ∧ n.toInt = -(Nat.ofDigitChars 10 ds 0 : Int))

theorem magnitude?_of_digits {ds : List Char} (h : Digits ds) :
    magnitude? ds = some (Nat.ofDigitChars 10 ds 0) :=
  if_pos ⟨h.1, List.all_eq_true.2 h.2⟩

/-- A number has a 64-bit integer exactly when it is the value of one. -/
theorem fit?_eq_some_iff {z : Int} {n : Int64} : fit? z = some n ↔ n.toInt = z := by
  have hmin : Int64.minValue.toInt = -2 ^ 63 := rfl
  have hmax : Int64.maxValue.toInt = 2 ^ 63 - 1 := rfl
  unfold fit?
  rw [hmin, hmax]
  constructor
  · intro h
    split at h
    · next hz =>
      cases h
      exact Int64.toInt_ofInt_of_le hz.1 (by omega)
    · cases h
  · rintro rfl
    have hlo := n.minValue_le_toInt
    have hhi := n.toInt_le
    rw [hmin] at hlo
    rw [hmax] at hhi
    rw [if_pos ⟨hlo, hhi⟩, Int64.ofInt_toInt]

/-- A run of digits is a number without a sign. -/
theorem parseInt?_of_digits {ds : List Char} (h : Digits ds) :
    parseInt? ds = some (Nat.ofDigitChars 10 ds 0 : Int) := by
  cases ds with
  | nil => exact absurd rfl h.1
  | cons c cs =>
      rw [parseInt?_of_isDigit (h.2 c List.mem_cons_self), magnitude?_of_digits h]
      rfl

theorem parseInt?_of_minus {ds : List Char} (h : Digits ds) :
    parseInt? ('-' :: ds) = some (-(Nat.ofDigitChars 10 ds 0 : Int)) := by
  rw [parseInt?, magnitude?_of_digits h]
  rfl

/-- What a numeral writes is the number that is read from it. -/
theorem parse?_of_writes {written : String} {n : Int64} (h : Writes written n) :
    parse? written = some n := by
  unfold parse?
  obtain ⟨ds, hds, ⟨htext, hn⟩ | ⟨htext, hn⟩⟩ := h
  · rw [htext, parseInt?_of_digits hds]
    exact fit?_eq_some_iff.2 hn
  · rw [htext, parseInt?_of_minus hds]
    exact fit?_eq_some_iff.2 hn

/-- **A numeral is read to the number that it writes**, and to none if that does not fit. -/
theorem parse?_eq_some_iff {written : String} (h : Numeral written) {n : Int64} :
    parse? written = some n ↔ Writes written n := by
  refine ⟨fun hn => ?_, parse?_of_writes⟩
  unfold parse? at hn
  obtain ⟨ds, hds, htext | htext⟩ := h
  · rw [htext, parseInt?_of_digits hds] at hn
    exact ⟨ds, hds, Or.inl ⟨htext, fit?_eq_some_iff.1 hn⟩⟩
  · rw [htext, parseInt?_of_minus hds] at hn
    exact ⟨ds, hds, Or.inr ⟨htext, fit?_eq_some_iff.1 hn⟩⟩

/-- A digit is not a letter. -/
theorem isAlpha_of_isDigit {c : Char} (h : c.isDigit = true) : c.isAlpha = false := by
  have hdigit : (decide (c.val ≥ '0'.val) && decide (c.val ≤ '9'.val)) = true := h
  have hupper : c.isUpper = decide (c.val ≥ 'A'.val ∧ c.val ≤ 'Z'.val) := rfl
  have hlower : c.isLower = (decide (c.val ≥ 'a'.val) && decide (c.val ≤ 'z'.val)) := rfl
  show (c.isUpper || c.isLower) = false
  grind

/-- A text that begins with neither a sign nor a digit is no integer. -/
theorem parse?_eq_none {c : Char} (hminus : c ≠ '-') (hplus : c ≠ '+') (hdigit : c.isDigit = false)
    (s : List Char) : parse? (String.ofList (c :: s)) = none := by
  have hmagnitude : magnitude? (c :: s) = none := by
    refine if_neg fun h => ?_
    have hc := List.all_eq_true.1 h.2 c List.mem_cons_self
    rw [hdigit] at hc
    cases hc
  rw [parse?, String.toList_ofList, parseInt?.eq_3 _ (by grind) (by grind), hmagnitude]
  rfl

theorem digits_digits (n : Nat) : Digits (digits n) :=
  ⟨Nat.toDigits_ne_nil, List.all_eq_true.1 (all_isDigit_digits n)⟩

/-- What is written for an integer is a numeral. -/
theorem numeral_render (n : Int64) : Numeral (render n) := by
  unfold render
  cases n.toInt with
  | ofNat k => exact ⟨digits k, digits_digits k, Or.inl String.toList_ofList⟩
  | negSucc k => exact ⟨digits (k + 1), digits_digits (k + 1), Or.inr String.toList_ofList⟩

end CallScript.Decimal
