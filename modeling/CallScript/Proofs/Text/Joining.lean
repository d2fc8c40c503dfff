import Mathlib.Data.List.Infix
import CallScript.Proofs.Text.Leftmost

/-!
# Cutting and joining

A subject has no occurrence of a text, or a first one, with the rest of the subject behind it. What
the passes over a subject do in these two cases is all there is to say about them
(`occurrence_induction`).

* `intercalate_splitOn`: the pieces of a subject, joined with the text, are the subject;
* `not_infix_of_mem_splitOn`: without a bound, the text is in none of them;
* `replaceAll_eq_intercalate`: replacing the text by another one is joining the pieces with that;
* `exists_occurrences`, `exists_leftmost`: there is one cut at each occurrence;
* `flatten_singles`, `length_of_mem_dropLast_singles`: the empty text cuts behind characters.
-/

namespace CallScript.Text

variable {d : List Char} {cuts : Option Nat}

/-! ## 1. The first occurrence -/

/-- There is no occurrence of the text, or there is a first one. -/
theorem first_occurrence (d s : List Char) :
    (∀ k < s.length, occursAt d s k = false) ∨
      ∃ pre post, s = pre ++ (d ++ post) ∧
        ∀ k < pre.length, occursAt d (pre ++ (d ++ post)) k = false := by
  by_cases h : ∃ k, k < s.length ∧ occursAt d s k = true
  · obtain ⟨hlt, hocc⟩ := Nat.find_spec h
    obtain ⟨post, hpost⟩ := occursAt_iff.1 hocc
    have hsplit : s = s.take (Nat.find h) ++ (d ++ post) := by
      rw [hpost, List.take_append_drop]
    refine Or.inr ⟨_, post, hsplit, fun k hk => ?_⟩
    rw [← hsplit]
    rw [List.length_take] at hk
    have hbefore := Nat.find_min h (show k < Nat.find h by omega)
    simpa [show k < s.length by omega] using hbefore
  · simp only [not_exists, not_and, Bool.not_eq_true] at h
    exact Or.inl h

/-- **Induction from one occurrence to the next.** -/
theorem occurrence_induction {motive : List Char → Prop} (hd : d ≠ [])
    (none : ∀ s, (∀ k < s.length, occursAt d s k = false) → motive s)
    (first : ∀ pre post, (∀ k < pre.length, occursAt d (pre ++ (d ++ post)) k = false) →
      motive post → motive (pre ++ (d ++ post)))
    (s : List Char) : motive s := by
  induction hn : s.length using Nat.strongRecOn generalizing s with
  | ind n ih =>
      rcases first_occurrence d s with hnone | ⟨pre, post, rfl, hbefore⟩
      · exact none s hnone
      · have hpos := List.length_pos_iff.2 hd
        simp only [List.length_append] at hn
        exact first pre post hbefore (ih post.length (by omega) post rfl)

/-! ## 2. Pieces -/

/-- Without an allowed cut, the subject is one piece. -/
theorem splitOn_some_zero (d s : List Char) : splitOn d (some 0) s = [s] := by
  rw [splitOn, splitOnFrom_some_zero]

/-- Without an occurrence, the subject is one piece. -/
theorem splitOn_of_not_occursAt {s : List Char} (h : ∀ k < s.length, occursAt d s k = false) :
    splitOn d cuts s = [s] := by
  rw [splitOn, splitOnFrom_of_not_occursAt h]

/-- What stands in front of the first occurrence is the first piece, if a cut is allowed. -/
theorem splitOn_first (hd : d ≠ []) (hcuts : cuts ≠ some 0) {pre post : List Char}
    (h : ∀ k < pre.length, occursAt d (pre ++ (d ++ post)) k = false) :
    splitOn d cuts (pre ++ (d ++ post)) = pre :: splitOn d (oneLess cuts) post := by
  rw [splitOn, splitOnFrom_before h, splitOnFrom_at hd hcuts, List.append_nil]
  rfl

/-- Without a bound every cut is allowed. -/
theorem splitOn_none_first (hd : d ≠ []) {pre post : List Char}
    (h : ∀ k < pre.length, occursAt d (pre ++ (d ++ post)) k = false) :
    splitOn d none (pre ++ (d ++ post)) = pre :: splitOn d none post :=
  splitOn_first hd (Option.some_ne_none 0).symm h

theorem splitOn_ne_nil (d : List Char) (cuts : Option Nat) (s : List Char) :
    splitOn d cuts s ≠ [] := List.cons_ne_nil _ _

/-- **The pieces, joined with the text, are the subject**, whatever the bound on cuts is. -/
theorem intercalate_splitOn (hd : d ≠ []) (cuts : Option Nat) (s : List Char) :
    d.intercalate (splitOn d cuts s) = s := by
  induction s using occurrence_induction hd generalizing cuts with
  | none s h => rw [splitOn_of_not_occursAt h, List.intercalate_singleton]
  | first pre post h ih =>
      by_cases hcuts : cuts = some 0
      · rw [hcuts, splitOn_some_zero, List.intercalate_singleton]
      · rw [splitOn_first hd hcuts h, List.intercalate_cons_of_ne_nil (splitOn_ne_nil _ _ _), ih,
          List.append_assoc]

/-- **Replacing the text is joining the pieces with another one.** -/
theorem replaceAll_eq_intercalate (hd : d ≠ []) (w s : List Char) :
    replaceAll d w s = w.intercalate (splitOn d none s) := by
  unfold replaceAll
  induction s using occurrence_induction hd with
  | none s h =>
      rw [replaceAllFrom_of_not_occursAt h, splitOn_of_not_occursAt h,
        List.intercalate_singleton]
  | first pre post h ih =>
      rw [replaceAllFrom_before h, replaceAllFrom_at hd, splitOn_none_first hd h,
        List.intercalate_cons_of_ne_nil (splitOn_ne_nil _ _ _), ih, List.append_assoc]

/-- A text that is part of the front of a subject occurs there. -/
theorem not_infix_of_not_occursAt (hd : d ≠ []) {pre rest : List Char}
    (h : ∀ k < pre.length, occursAt d (pre ++ rest) k = false) : ¬ d <:+: pre := by
  rintro ⟨front, back, rfl⟩
  have hpos := List.length_pos_iff.2 hd
  have hocc := h front.length (by simp only [List.length_append]; omega)
  rw [List.append_assoc, List.append_assoc, occursAt, List.drop_left] at hocc
  rw [List.isPrefixOf_iff_prefix.2 (List.prefix_append _ _)] at hocc
  cases hocc

/-- **Where the number of cuts has no bound, no piece contains the text.** -/
theorem not_infix_of_mem_splitOn (hd : d ≠ []) {s piece : List Char}
    (h : piece ∈ splitOn d none s) : ¬ d <:+: piece := by
  induction s using occurrence_induction hd with
  | none s hnone =>
      rw [splitOn_of_not_occursAt hnone, List.mem_singleton] at h
      subst h
      exact not_infix_of_not_occursAt hd (by rwa [List.append_nil])
  | first pre post hbefore ih =>
      rw [splitOn_none_first hd hbefore] at h
      rcases List.mem_cons.1 h with rfl | h
      · exact not_infix_of_not_occursAt hd hbefore
      · exact ih h

/-! ## 3. Numbers of pieces -/

/-- What is found in a subject from a place on, where it is cut. -/
theorem exists_occurrences (hd : d ≠ []) (t s : List Char) :
    ∀ place ≤ t.length, t.drop place = s →
      ∃ found, Occurrences (String.ofList d) (String.ofList t) (bytesBefore t place) found ∧
        (splitOn d none s).length = found.length + 1 := by
  induction s using occurrence_induction hd with
  | none s h =>
      intro place hplace hs
      subst hs
      refine ⟨[], .of_not_occursAt hd hplace fun k hk hlt => ?_,
        by rw [splitOn_of_not_occursAt h]; rfl⟩
      rw [← Nat.add_sub_cancel' hk, ← occursAt_drop]
      exact h (k - place) (by rw [List.length_drop]; omega)
  | first pre post h ih =>
      intro place hplace hs
      have hlength := congrArg List.length hs
      simp only [List.length_drop, List.length_append] at hlength
      have hocc : occursAt d t (place + pre.length) = true := by
        rw [← occursAt_drop, hs, occursAt, List.drop_left]
        exact List.isPrefixOf_iff_prefix.2 (List.prefix_append _ _)
      have hpost : t.drop (place + pre.length + d.length) = post := by
        rw [← List.drop_drop, ← List.drop_drop, hs, List.drop_left, List.drop_left]
      obtain ⟨later, hlater, hpieces⟩ := ih (place + pre.length + d.length) (by omega) hpost
      refine ⟨_, .of_first (Nat.le_add_right _ _) (by omega) hocc (fun k hk hlt => ?_) hlater, ?_⟩
      · rw [← Nat.add_sub_cancel' hk, ← occursAt_drop, hs]
        exact h (k - place) (by omega)
      · rw [splitOn_none_first hd h, List.length_cons, List.length_cons]
        exact congrArg (· + 1) hpieces

/-- **There is one piece more than there are leftmost occurrences.** -/
theorem exists_leftmost (hd : d ≠ []) (s : List Char) :
    ∃ found, Leftmost (String.ofList d) (String.ofList s) found ∧
      (splitOn d none s).length = found.length + 1 := by
  obtain ⟨found, hfound, hpieces⟩ := exists_occurrences hd s s 0 (Nat.zero_le _) rfl
  have hpos : 0 < (String.ofList d).utf8ByteSize := by
    refine Nat.pos_of_ne_zero fun hzero => hd ?_
    rw [String.utf8ByteSize_eq_zero_iff] at hzero
    rw [← @String.toList_ofList d, hzero]
    rfl
  rw [bytesBefore_zero] at hfound
  exact ⟨found, hfound.leftmost hpos, hpieces⟩

/-! ## 4. Cutting behind characters -/

/-- **The pieces are the subject, one behind the other.** -/
theorem flatten_singles (cuts : Option Nat) (s : List Char) : (singles cuts s).flatten = s := by
  fun_induction singles cuts s with
  | case1 => rfl
  | case2 => rfl
  | case3 => exact List.append_nil _
  | case4 cuts c r _ _ ih => rw [List.flatten_cons, ih]; rfl

theorem singles_ne_nil (cuts : Option Nat) (s : List Char) : singles cuts s ≠ [] := by
  fun_cases singles cuts s <;> exact List.cons_ne_nil _ _

/-- All pieces but the last one are characters. -/
theorem length_of_mem_dropLast_singles {s piece : List Char}
    (h : piece ∈ (singles cuts s).dropLast) : piece.length = 1 := by
  fun_induction singles cuts s with
  | case1 | case2 | case3 => cases h
  | case4 cuts c r _ _ ih =>
      rw [List.dropLast_cons_of_ne_nil (singles_ne_nil _ _)] at h
      rcases List.mem_cons.1 h with rfl | h
      · rfl
      · exact ih h

end CallScript.Text
