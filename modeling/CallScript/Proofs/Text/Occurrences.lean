import CallScript.Proofs.Text.Substring

/-!
# Occurrences in bytes

Where a text stands in another one, counted in bytes, and what a pass from left to right finds of it
if nothing is found twice. Neither mentions how the pass is made.

* `StandsAt` is that a text stands behind a number of bytes, `Occurrences` the list of the numbers
  of bytes behind which the pass finds it;
* `Occurrences.unique`: there is only one such list;
* `standsAt_iff`: the texts in question stand behind whole characters, so places between characters
  can be counted instead (`bytesBefore`).
-/

namespace CallScript.Text

/-! ## 1. What a pass finds -/

/-- The text stands in the subject behind a number of bytes. -/
def StandsAt (what subject : String) (offset : Nat) : Prop :=
  ∃ before after, subject = before ++ what ++ after ∧ before.utf8ByteSize = offset

/-- What a pass over the subject finds of the text, from an offset on: the first place where the text
    stands, and then what is found from its end on. -/
inductive Occurrences (what subject : String) : Nat → List Nat → Prop
  | done {offset : Nat} (h : ∀ k, offset ≤ k → ¬ StandsAt what subject k) :
      Occurrences what subject offset []
  | next {offset first : Nat} {later : List Nat} (le : offset ≤ first)
      (stands : StandsAt what subject first)
      (isFirst : ∀ k, offset ≤ k → k < first → ¬ StandsAt what subject k)
      (rest : Occurrences what subject (first + what.utf8ByteSize) later) :
      Occurrences what subject offset (first :: later)

/-- **A pass finds nothing else.** -/
theorem Occurrences.unique {what subject : String} {offset : Nat} {found found' : List Nat}
    (h : Occurrences what subject offset found) (h' : Occurrences what subject offset found') :
    found = found' := by
  induction h generalizing found' with
  | done hnone =>
      cases h' with
      | done => rfl
      | next le stands => exact absurd stands (hnone _ le)
  | @next offset first later le stands isFirst _ ih =>
      cases h' with
      | done hnone => exact absurd stands (hnone _ le)
      | @next _ first' later' le' stands' isFirst' rest' =>
          -- the smaller of two first places would be in front of the other one
          obtain rfl : first = first' := by
            rcases Nat.lt_trichotomy first first' with hlt | heq | hgt
            · exact absurd stands (isFirst' _ le hlt)
            · exact heq
            · exact absurd stands' (isFirst _ le' hgt)
          rw [ih rest']

/-! ## 2. Bytes and characters -/

/-- The size in bytes of the first characters of a text. -/
def bytesBefore (s : List Char) (count : Nat) : Nat := (String.ofList (s.take count)).utf8ByteSize

theorem bytesBefore_zero (s : List Char) : bytesBefore s 0 = 0 := rfl

theorem bytesBefore_length_append (before after : List Char) :
    bytesBefore (before ++ after) before.length = (String.ofList before).utf8ByteSize := by
  rw [bytesBefore, List.take_left]

/-- Behind more characters are the bytes of the characters in between. -/
theorem bytesBefore_add (s : List Char) (count more : Nat) :
    bytesBefore s (count + more) =
      bytesBefore s count + (String.ofList ((s.drop count).take more)).utf8ByteSize := by
  rw [bytesBefore, List.take_add, String.ofList_append, String.utf8ByteSize_append]
  rfl

/-- Behind more characters are more bytes, as long as there are characters. -/
theorem bytesBefore_lt {s : List Char} {j k : Nat} (hlt : j < k) (hle : k ≤ s.length) :
    bytesBefore s j < bytesBefore s k := by
  obtain ⟨more, rfl⟩ := Nat.exists_eq_add_of_le (Nat.le_of_lt hlt)
  rw [bytesBefore_add]
  refine Nat.lt_add_of_pos_right (Nat.pos_of_ne_zero fun hzero => ?_)
  rw [String.utf8ByteSize_eq_zero_iff, ← String.toList_eq_nil_iff, String.toList_ofList] at hzero
  have hlen := congrArg List.length hzero
  rw [List.length_take, List.length_drop, List.length_nil] at hlen
  omega

/-- Behind no fewer characters are no fewer bytes. -/
theorem bytesBefore_le (s : List Char) {j k : Nat} (hle : j ≤ k) :
    bytesBefore s j ≤ bytesBefore s k := by
  obtain ⟨more, rfl⟩ := Nat.exists_eq_add_of_le hle
  rw [bytesBefore_add]
  exact Nat.le_add_right _ _

/-- **A text stands behind the bytes of whole characters**, where it occurs as characters. -/
theorem standsAt_iff {what s : List Char} {offset : Nat} :
    StandsAt (String.ofList what) (String.ofList s) offset ↔
      ∃ k ≤ s.length, occursAt what s k = true ∧ bytesBefore s k = offset := by
  constructor
  · rintro ⟨before, after, hsplit, rfl⟩
    have hs : s = before.toList ++ (what ++ after.toList) := by
      have h := congrArg String.toList hsplit
      rwa [String.toList_ofList, String.toList_append, String.toList_append, String.toList_ofList,
        List.append_assoc] at h
    subst hs
    refine ⟨before.toList.length, by simp, ?_, ?_⟩
    · rw [occursAt_iff, List.drop_left]
      exact List.prefix_append _ _
    · rw [bytesBefore_length_append, String.ofList_toList]
  · rintro ⟨k, -, hocc, rfl⟩
    obtain ⟨after, hafter⟩ := occursAt_iff.1 hocc
    refine ⟨String.ofList (s.take k), String.ofList after, ?_, rfl⟩
    rw [← String.ofList_append, ← String.ofList_append, List.append_assoc, hafter,
      List.take_append_drop]

/-- Where a text stands behind the bytes of a place, it occurs at that place or behind it. -/
theorem StandsAt.exists_occursAt {what s : List Char} {place offset : Nat}
    (h : StandsAt (String.ofList what) (String.ofList s) offset) (hplace : place ≤ s.length)
    (hle : bytesBefore s place ≤ offset) :
    ∃ k, place ≤ k ∧ k ≤ s.length ∧ occursAt what s k = true ∧ bytesBefore s k = offset := by
  obtain ⟨k, hk, hocc, rfl⟩ := standsAt_iff.1 h
  refine ⟨k, ?_, hk, hocc, rfl⟩
  rcases Nat.lt_or_ge k place with hlt | hge
  · have hbytes := bytesBefore_lt hlt hplace
    omega
  · exact hge

/-! ## 3. Occurrences from a place on -/

section

variable {d t : List Char} {place : Nat}

/-- Where the text does not occur, nothing is found. -/
theorem Occurrences.of_not_occursAt (hd : d ≠ []) (hplace : place ≤ t.length)
    (h : ∀ k, place ≤ k → k < t.length → occursAt d t k = false) :
    Occurrences (String.ofList d) (String.ofList t) (bytesBefore t place) [] := by
  refine .done fun k hk hstands => ?_
  obtain ⟨here, hle, -, hocc, -⟩ := hstands.exists_occursAt hplace hk
  rw [h here hle (lt_length_of_occursAt hd hocc)] at hocc
  cases hocc

/-- Where the text occurs for the first time it is found, and then what is found behind it. -/
theorem Occurrences.of_first {start : Nat} {later : List Nat} (hle : place ≤ start)
    (hend : start ≤ t.length) (hocc : occursAt d t start = true)
    (hfirst : ∀ k, place ≤ k → k < start → occursAt d t k = false)
    (hlater : Occurrences (String.ofList d) (String.ofList t) (bytesBefore t (start + d.length))
      later) :
    Occurrences (String.ofList d) (String.ofList t) (bytesBefore t place)
      (bytesBefore t start :: later) := by
  refine .next (bytesBefore_le t hle) (standsAt_iff.2 ⟨start, hend, hocc, rfl⟩) ?_ ?_
  · intro k hk hlt hstands
    obtain ⟨here, hplace, -, hocc', rfl⟩ := hstands.exists_occursAt (Nat.le_trans hle hend) hk
    have hstart : here < start := by
      rcases Nat.lt_or_ge here start with hlt | hge
      · exact hlt
      · have hbytes := bytesBefore_le t hge
        omega
    rw [hfirst here hplace hstart] at hocc'
    cases hocc'
  · obtain ⟨after, hafter⟩ := occursAt_iff.1 hocc
    have htake : (t.drop start).take d.length = d := by rw [← hafter, List.take_left]
    rwa [bytesBefore_add, htake] at hlater

end

end CallScript.Text
