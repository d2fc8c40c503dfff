import CallScript.Value.Table
import Mathlib.Algebra.Group.Nat.Defs

/-!
# Tables that are filled from the front

A table into which values are only pushed has its keys counted from zero on (`Table.Counted`), so
every push adds an entry, as long as there is a next index. `size_ofList`: the table of a list has
as many entries as the list.
-/

namespace CallScript.Table

variable {α : Type} {t : Table α}

/-- The next index is the number of entries, and nothing is written under it or behind it. -/
structure Counted (t : Table α) : Prop where
  next : t.nextIndex = Int64.ofNat t.size
  free : ∀ i, t.size ≤ i → i < 2 ^ 63 → t.positions[Key.index (Int64.ofNat i)]? = none

theorem counted_empty : Counted (empty : Table α) :=
  ⟨rfl, fun _ _ _ => Std.HashMap.getElem?_empty⟩

/-- Numbers below the limit are different indexes. -/
theorem ofNat_inj {i j : Nat} (hi : i < 2 ^ 63) (hj : j < 2 ^ 63)
    (h : Int64.ofNat i = Int64.ofNat j) : i = j := by
  have h := congrArg Int64.toInt h
  rw [Int64.toInt_ofNat_of_lt hi, Int64.toInt_ofNat_of_lt hj] at h
  exact Int.ofNat.inj h

/-- Behind an integer is the next one, but behind the largest one is the largest one. -/
theorem toInt_succ (i : Int64) : (succ i).toInt = min (i.toInt + 1) Int64.maxValue.toInt := by
  have hmin := i.le_toInt
  have hmax := i.toInt_le
  have hlast := Int64.toInt_maxValue
  unfold succ
  split
  · next h =>
    rw [h, hlast]
    omega
  · next h =>
    have hne : i.toInt ≠ Int64.maxValue.toInt := fun heq => h (Int64.toInt_inj.1 heq)
    rw [Int64.toInt_add, Int64.toInt_one, Int.bmod_eq_of_le] <;> omega

/-- The index behind a number below the largest one is the one of the next number. -/
theorem succ_ofNat {i : Nat} (h : i + 1 < 2 ^ 63) : succ (Int64.ofNat i) = Int64.ofNat (i + 1) := by
  rw [← Int64.toInt_inj, toInt_succ, Int64.toInt_maxValue, Int64.toInt_ofNat_of_lt h,
    Int64.toInt_ofNat_of_lt (Nat.lt_of_succ_lt h)]
  omega

/-- **A push adds an entry**, and the table stays counted. -/
theorem Counted.push (h : t.Counted) (hsize : t.size + 1 < 2 ^ 63) (v : α) :
    (t.push v).Counted ∧ (t.push v).size = t.size + 1 := by
  obtain ⟨entries, positions, next, keyed⟩ := t
  obtain rfl : next = Int64.ofNat entries.size := h.next
  have hsize : entries.size + 1 < 2 ^ 63 := hsize
  have hfree : positions[Key.index (Int64.ofNat entries.size)]? = none :=
    h.free entries.size (Nat.le_refl _) (Nat.lt_of_succ_lt hsize)
  have hnext : nextAfter (Int64.ofNat entries.size) (.index (Int64.ofNat entries.size)) =
      Int64.ofNat (entries.size + 1) := by
    rw [nextAfter, if_pos (Int64.le_refl _), succ_ofNat hsize]
  have hpush : Table.push ⟨entries, positions, Int64.ofNat entries.size, keyed⟩ v =
      ⟨entries.push (.index (Int64.ofNat entries.size), v),
        positions.insert (.index (Int64.ofNat entries.size)) entries.size,
        Int64.ofNat (entries.size + 1), keyed⟩ := by
    rw [Table.push, set]
    simp only [hfree, hnext]
  have hadded : (entries.push (Key.index (Int64.ofNat entries.size), v)).size =
      entries.size + 1 := Array.size_push _
  rw [hpush]
  refine ⟨⟨congrArg Int64.ofNat hadded.symm, fun i hi hlt => ?_⟩, hadded⟩
  have hi : entries.size + 1 ≤ i := hadded ▸ hi
  have hne : Key.index (Int64.ofNat entries.size) ≠ .index (Int64.ofNat i) := by
    intro heq
    have := ofNat_inj (Nat.lt_of_succ_lt hsize) hlt (Key.index.inj heq)
    omega
  show (positions.insert _ _)[Key.index (Int64.ofNat i)]? = none
  rw [Std.HashMap.getElem?_insert, if_neg (by simpa using hne)]
  exact h.free i (Nat.le_of_succ_le hi) hlt

/-- Pushing the values of a list adds as many entries. -/
theorem Counted.pushAll {vs : List α} (h : t.Counted) (hsize : t.size + vs.length < 2 ^ 63) :
    (vs.foldl Table.push t).size = t.size + vs.length := by
  induction vs generalizing t with
  | nil => rfl
  | cons v vs ih =>
      rw [List.length_cons] at hsize
      obtain ⟨hpush, hadded⟩ := h.push (by omega) v
      rw [List.foldl_cons, ih hpush (by omega), hadded, List.length_cons]
      omega

/-- **The table of a list has as many entries as the list.** -/
theorem size_ofList {vs : List α} (h : vs.length < 2 ^ 63) : (ofList vs).size = vs.length := by
  have hsize : (empty : Table α).size + vs.length = vs.length := Nat.zero_add _
  have hpush : (ofList vs).size = (empty : Table α).size + vs.length :=
    counted_empty.pushAll (hsize.symm ▸ h)
  rw [hpush, hsize]

end CallScript.Table
