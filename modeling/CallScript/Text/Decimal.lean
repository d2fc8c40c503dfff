/-!
# Decimal text of integers

Integers are signed and 64 bits wide. This file fixes how they are written and read:

* `render` writes the shortest decimal text, with a minus sign for a negative number;
* `parse?` reads an optional single sign and a run of ASCII digits, and refuses a number that does
  not fit.

`parse?_render` says that what is written reads back.
-/

namespace CallScript.Decimal

/-- The decimal digits of a natural number. -/
def digits (n : Nat) : List Char := Nat.toDigits 10 n

/-- The shortest decimal text of a number. -/
def renderInt : Int → List Char
  | .ofNat n => digits n
  | .negSucc n => '-' :: digits (n + 1)

/-- The shortest decimal text of a 64-bit integer. -/
def render (n : Int64) : String := String.ofList (renderInt n.toInt)

/-- The number that a non-empty run of ASCII digits writes. -/
def magnitude? (cs : List Char) : Option Nat :=
  if cs ≠ [] ∧ cs.all Char.isDigit then some (Nat.ofDigitChars 10 cs 0) else none

/-- The number that an optional sign and a run of digits write. -/
def parseInt? : List Char → Option Int
  | '-' :: cs => (magnitude? cs).map fun n => -(n : Int)
  | '+' :: cs => (magnitude? cs).map fun n => (n : Int)
  | cs => (magnitude? cs).map fun n => (n : Int)

/-- The 64-bit integer with this value, if there is one. -/
def fit? (n : Int) : Option Int64 :=
  if Int64.minValue.toInt ≤ n ∧ n ≤ Int64.maxValue.toInt then some (Int64.ofInt n) else none

/-- The 64-bit integer that a text writes, if it is one. -/
def parse? (s : String) : Option Int64 := (parseInt? s.toList).bind fit?

/-! ## Reading back -/

theorem all_isDigit_digits (n : Nat) : (digits n).all Char.isDigit = true := by
  simp only [List.all_eq_true]
  exact fun c hc => Nat.isDigit_of_mem_toDigits (by omega) (by omega) hc

theorem magnitude?_digits (n : Nat) : magnitude? (digits n) = some n := by
  have h₁ : digits n ≠ [] := Nat.toDigits_ne_nil
  rw [magnitude?, if_pos ⟨h₁, all_isDigit_digits n⟩, digits,
    Nat.ofDigitChars_toDigits (by omega) (by omega)]

/-- A text that starts with a digit has no sign. -/
theorem parseInt?_of_isDigit {c : Char} {cs : List Char} (h : c.isDigit = true) :
    parseInt? (c :: cs) = (magnitude? (c :: cs)).map fun n => (n : Int) := by
  have h₁ : c ≠ '-' := by rintro rfl; simp at h
  have h₂ : c ≠ '+' := by rintro rfl; simp at h
  simp [parseInt?, h₁, h₂]

theorem parseInt?_renderInt (n : Int) : parseInt? (renderInt n) = some n := by
  cases n with
  | negSucc n => simp [renderInt, parseInt?, magnitude?_digits, Int.negSucc_eq]
  | ofNat n =>
    have hm := magnitude?_digits n
    have hd := all_isDigit_digits n
    simp only [renderInt]
    cases h : digits n with
    | nil => exact absurd h Nat.toDigits_ne_nil
    | cons c cs =>
      rw [h] at hm hd
      simp only [List.all_cons, Bool.and_eq_true] at hd
      simp [parseInt?_of_isDigit hd.1, hm]

/-- **What is written reads back.** -/
theorem parse?_render (n : Int64) : parse? (render n) = some n := by
  have h : Int64.minValue.toInt ≤ n.toInt ∧ n.toInt ≤ Int64.maxValue.toInt :=
    ⟨n.minValue_le_toInt, n.toInt_le⟩
  rw [parse?, render, String.toList_ofList, parseInt?_renderInt, Option.bind_some, fit?, if_pos h,
    Int64.ofInt_toInt]

end CallScript.Decimal
