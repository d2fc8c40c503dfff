import Mathlib.Data.List.Sort
import CallScript.Proofs.Text.Occurrences

/-!
# Leftmost occurrences

What a pass from left to right finds of a text, said without the order in which it finds it: the
places in bytes at which the text stands, such that no two overlap and each place that is left out
is overlapped by a place in front of it. This makes sense for the empty text, too, which stands
between any two characters and overlaps with nothing.

* `Leftmost.unique`: there is only one such list;
* `Occurrences.leftmost`: for a text that is not empty it is the list of what is found place by place;
* `leftmost_empty`: for the empty text it is the list of all places.
-/

namespace CallScript.Text

/-- The leftmost occurrences of a text in a subject that do not overlap, in bytes. -/
structure Leftmost (what subject : String) (found : List Nat) : Prop where
  ascending : found.Pairwise (· < ·)
  stands : ∀ k ∈ found, StandsAt what subject k
  apart : ∀ j ∈ found, ∀ k ∈ found, j < k → j + what.utf8ByteSize ≤ k
  complete : ∀ k, StandsAt what subject k → k ∉ found →
    ∃ j ∈ found, j < k ∧ k < j + what.utf8ByteSize

/-! ## 1. Uniqueness -/

/-- A place at which one list has an occurrence is in the other one, if the two agree before it. -/
theorem Leftmost.mem_of_mem {what subject : String} {found found' : List Nat}
    (h : Leftmost what subject found) (h' : Leftmost what subject found') {k : Nat}
    (hagree : ∀ j < k, j ∈ found' → j ∈ found) (hk : k ∈ found) : k ∈ found' := by
  refine Classical.byContradiction fun hnot => ?_
  obtain ⟨j, hj, hlt, hover⟩ := h'.complete k (h.stands k hk) hnot
  have hapart := h.apart j (hagree j hlt hj) k hk hlt
  omega

/-- **There is only one list of leftmost occurrences.** The induction is on the place: whether it is
    in a list depends on the places before it. -/
theorem Leftmost.unique {what subject : String} {found found' : List Nat}
    (h : Leftmost what subject found) (h' : Leftmost what subject found') : found = found' := by
  refine h.ascending.eq_of_mem_iff h'.ascending fun k => ?_
  induction k using Nat.strongRecOn with
  | ind k ih =>
      exact ⟨h.mem_of_mem h' fun j hj => (ih j hj).2, h'.mem_of_mem h fun j hj => (ih j hj).1⟩

/-! ## 2. Texts that are not empty -/

/-- What is found from an offset on is found at the offset or behind it. -/
theorem Occurrences.offset_le {what subject : String} {offset : Nat} {found : List Nat}
    (h : Occurrences what subject offset found) : ∀ k ∈ found, offset ≤ k := by
  induction h with
  | done => exact fun k hk => absurd hk List.not_mem_nil
  | next le _ _ _ ih =>
      refine List.forall_mem_cons.2 ⟨le, fun k hk => ?_⟩
      have := ih k hk
      omega

/-- What is found from an offset on is leftmost among what stands there. -/
theorem Occurrences.leftmost_from {what subject : String} (hne : 0 < what.utf8ByteSize)
    {offset : Nat} {found : List Nat} (h : Occurrences what subject offset found) :
    found.Pairwise (· < ·) ∧ (∀ k ∈ found, StandsAt what subject k) ∧
      (∀ j ∈ found, ∀ k ∈ found, j < k → j + what.utf8ByteSize ≤ k) ∧
      ∀ k, offset ≤ k → StandsAt what subject k → k ∉ found →
        ∃ j ∈ found, j < k ∧ k < j + what.utf8ByteSize := by
  induction h with
  | done hnone =>
      exact ⟨.nil, nofun, nofun, fun k hk hstands _ => absurd hstands (hnone k hk)⟩
  | @next offset first later le stands isFirst rest ih =>
      obtain ⟨hascending, hstands, hapart, hcomplete⟩ := ih
      have hbehind := rest.offset_le
      refine ⟨List.pairwise_cons.2 ⟨fun k hk => ?_, hascending⟩,
        List.forall_mem_cons.2 ⟨stands, hstands⟩, fun j hj k hk hlt => ?_,
        fun k hk hk' hnot => ?_⟩
      · have := hbehind k hk
        omega
      · rcases List.mem_cons.1 hj with heq | hj
        · rcases List.mem_cons.1 hk with heq' | hk
          · omega
          · exact heq ▸ hbehind k hk
        · rcases List.mem_cons.1 hk with heq | hk
          · have := hbehind j hj
            omega
          · exact hapart j hj k hk hlt
      · rw [List.mem_cons, not_or] at hnot
        -- a place in front of the first one is none, and one that it does not overlap is behind it
        have hfirst : first < k := by
          rcases Nat.lt_trichotomy first k with hlt | heq | hgt
          · exact hlt
          · exact absurd heq.symm hnot.1
          · exact absurd hk' (isFirst k hk hgt)
        by_cases hover : k < first + what.utf8ByteSize
        · exact ⟨first, List.mem_cons_self, hfirst, hover⟩
        · obtain ⟨j, hj, hlt, hover⟩ := hcomplete k (by omega) hk' hnot.2
          exact ⟨j, List.mem_cons_of_mem _ hj, hlt, hover⟩

/-- **What a pass finds are the leftmost occurrences**, if the text is not empty. -/
theorem Occurrences.leftmost {what subject : String} (hne : 0 < what.utf8ByteSize)
    {found : List Nat} (h : Occurrences what subject 0 found) : Leftmost what subject found :=
  have ⟨hascending, hstands, hapart, hcomplete⟩ := h.leftmost_from hne
  ⟨hascending, hstands, hapart, fun k => hcomplete k (Nat.zero_le k)⟩

/-! ## 3. The empty text -/

/-- **The empty text stands in front of each character and at the end.** -/
theorem leftmost_empty (s : List Char) :
    Leftmost "" (String.ofList s) ((List.range (s.length + 1)).map (bytesBefore s)) := by
  have hmem : ∀ k, k ∈ (List.range (s.length + 1)).map (bytesBefore s) ↔
      StandsAt "" (String.ofList s) k := by
    intro k
    refine Iff.trans ?_ (@standsAt_iff [] s k).symm
    rw [List.mem_map]
    constructor
    · rintro ⟨j, hj, rfl⟩
      exact ⟨j, Nat.le_of_lt_succ (List.mem_range.1 hj), rfl, rfl⟩
    · rintro ⟨j, hj, -, rfl⟩
      exact ⟨j, List.mem_range.2 (Nat.lt_succ_of_le hj), rfl⟩
  refine ⟨?_, fun k => (hmem k).1, fun j _ k _ hlt => Nat.le_of_lt hlt,
    fun k hk hnot => absurd ((hmem k).2 hk) hnot⟩
  refine List.pairwise_map.2 (List.pairwise_lt_range.imp_of_mem fun {j k} _ hk hlt => ?_)
  exact bytesBefore_lt hlt (Nat.le_of_lt_succ (List.mem_range.1 hk))

end CallScript.Text
