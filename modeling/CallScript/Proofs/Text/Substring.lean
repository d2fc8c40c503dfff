import CallScript.Text.Substring

/-!
# Plain substrings in parts

How the passes over a subject go on where an occurrence is known. The text in front of the first
occurrence stays as it is (`splitOnFrom_before`, `replaceAllFrom_before`), the occurrence is cut out or
replaced (`splitOnFrom_at`, `replaceAllFrom_at`), and behind it the pass starts anew.
-/

namespace CallScript.Text

/-- The text occurs at the place. -/
def occursAt (d s : List Char) (place : Nat) : Bool := d.isPrefixOf (s.drop place)

theorem occursAt_iff {d s : List Char} {place : Nat} :
    occursAt d s place = true ↔ d <+: s.drop place := List.isPrefixOf_iff_prefix

theorem occursAt_drop (d s : List Char) (n place : Nat) :
    occursAt d (s.drop n) place = occursAt d s (n + place) := by
  rw [occursAt, List.drop_drop]
  rfl

theorem occursIn_iff {needle s : List Char} : occursIn needle s = true ↔ needle <:+: s := by
  induction s with
  | nil => rw [occursIn, List.isEmpty_iff, List.infix_nil]
  | cons c s ih =>
      rw [occursIn, Bool.or_eq_true, List.isPrefixOf_iff_prefix, ih, List.infix_cons_iff]

/-- A text that is not empty occurs in front of the end. -/
theorem lt_length_of_occursAt {d s : List Char} {place : Nat} (hd : d ≠ [])
    (h : occursAt d s place = true) : place < s.length := by
  have hle := (occursAt_iff.1 h).length_le
  have hpos := List.length_pos_iff.2 hd
  rw [List.length_drop] at hle
  omega

section

variable {d w : List Char} {cuts : Option Nat}

/-! ## 1. Cutting -/

/-- Without an allowed cut, the subject is one piece. -/
theorem splitOnFrom_some_zero (d s : List Char) : splitOnFrom d (some 0) 0 s = (s, []) := by
  induction s with
  | nil => rfl
  | cons c s ih =>
      rw [splitOnFrom, if_neg (fun h => h.1 rfl)]
      show (c :: (splitOnFrom d (some 0) 0 s).1, (splitOnFrom d (some 0) 0 s).2) = _
      rw [ih]

/-- The characters that belong to an occurrence are passed over. -/
theorem splitOnFrom_skip (pre s : List Char) :
    splitOnFrom d cuts pre.length (pre ++ s) = splitOnFrom d cuts 0 s := by
  induction pre with
  | nil => rfl
  | cons c pre ih => exact ih

/-- An occurrence is cut out, if a cut is allowed. -/
theorem splitOnFrom_at (hd : d ≠ []) (hcuts : cuts ≠ some 0) (s : List Char) :
    splitOnFrom d cuts 0 (d ++ s) =
      ([], (splitOnFrom d (oneLess cuts) 0 s).1 :: (splitOnFrom d (oneLess cuts) 0 s).2) := by
  cases d with
  | nil => exact absurd rfl hd
  | cons c r =>
      have hcut : cuts ≠ some 0 ∧ (c :: r).isPrefixOf (c :: (r ++ s)) = true :=
        ⟨hcuts, List.isPrefixOf_iff_prefix.2 ⟨s, rfl⟩⟩
      rw [List.cons_append, splitOnFrom, if_pos hcut]
      have hskip : splitOnFrom (c :: r) (oneLess cuts) ((c :: r).length - 1) (r ++ s) =
          splitOnFrom (c :: r) (oneLess cuts) 0 s := splitOnFrom_skip r s
      rw [hskip]

/-- What stands in front of the first occurrence goes into the first piece. -/
theorem splitOnFrom_before {pre s : List Char}
    (h : ∀ k < pre.length, occursAt d (pre ++ s) k = false) :
    splitOnFrom d cuts 0 (pre ++ s) =
      (pre ++ (splitOnFrom d cuts 0 s).1, (splitOnFrom d cuts 0 s).2) := by
  induction pre with
  | nil => rfl
  | cons c pre ih =>
      have hhead : d.isPrefixOf (c :: (pre ++ s)) = false := h 0 (Nat.zero_lt_succ _)
      rw [List.cons_append, splitOnFrom, if_neg (by rw [hhead]; exact fun h => nomatch h.2)]
      show (c :: (splitOnFrom d cuts 0 (pre ++ s)).1, (splitOnFrom d cuts 0 (pre ++ s)).2) = _
      rw [ih fun k hk => h (k + 1) (Nat.succ_lt_succ hk)]
      rfl

/-- Without an occurrence, the subject is one piece. -/
theorem splitOnFrom_of_not_occursAt {s : List Char}
    (h : ∀ k < s.length, occursAt d s k = false) : splitOnFrom d cuts 0 s = (s, []) := by
  have hs := @splitOnFrom_before d cuts s [] (by rwa [List.append_nil])
  rw [List.append_nil] at hs
  rw [hs]
  show (s ++ [], []) = _
  rw [List.append_nil]

/-! ## 2. Replacing -/

/-- The characters that belong to an occurrence are passed over. -/
theorem replaceAllFrom_skip (pre s : List Char) :
    replaceAllFrom d w pre.length (pre ++ s) = replaceAllFrom d w 0 s := by
  induction pre with
  | nil => rfl
  | cons c pre ih => exact ih

/-- An occurrence is replaced. -/
theorem replaceAllFrom_at (hd : d ≠ []) (s : List Char) :
    replaceAllFrom d w 0 (d ++ s) = w ++ replaceAllFrom d w 0 s := by
  cases d with
  | nil => exact absurd rfl hd
  | cons c r =>
      have hcut : (c :: r).isPrefixOf (c :: (r ++ s)) = true :=
        List.isPrefixOf_iff_prefix.2 ⟨s, rfl⟩
      rw [List.cons_append, replaceAllFrom, if_pos hcut]
      exact congrArg (w ++ ·) (replaceAllFrom_skip r s)

/-- What stands in front of the first occurrence stays. -/
theorem replaceAllFrom_before {pre s : List Char}
    (h : ∀ k < pre.length, occursAt d (pre ++ s) k = false) :
    replaceAllFrom d w 0 (pre ++ s) = pre ++ replaceAllFrom d w 0 s := by
  induction pre with
  | nil => rfl
  | cons c pre ih =>
      have hhead : d.isPrefixOf (c :: (pre ++ s)) = false := h 0 (Nat.zero_lt_succ _)
      rw [List.cons_append, replaceAllFrom, if_neg (by rw [hhead]; exact Bool.false_ne_true),
        ih fun k hk => h (k + 1) (Nat.succ_lt_succ hk)]
      rfl

/-- Without an occurrence, the subject stays. -/
theorem replaceAllFrom_of_not_occursAt {s : List Char}
    (h : ∀ k < s.length, occursAt d s k = false) : replaceAllFrom d w 0 s = s := by
  have hs := @replaceAllFrom_before d w s [] (by rwa [List.append_nil])
  rw [List.append_nil] at hs
  rw [hs]
  show s ++ [] = s
  rw [List.append_nil]

end

end CallScript.Text
