import CallScript.Pattern.Matches

/-!
# Matches in order

The matches in a subject stand one behind the other, and all but an empty one at the very beginning
end behind it.

* `inOrder_findAll`: each match begins where the one before ended, or behind it;
* `filter_findAll`, `findAll_of_startsEmpty`: of all matches, only the first one may end where the
  subject begins.
-/

namespace CallScript.Pattern

/-- Matches one behind the other, from a place on and within a size. -/
inductive InOrder (size : Nat) : Nat → List Match → Prop
  | nil {place : Nat} : InOrder size place []
  | cons {place : Nat} {m : Match} {ms : List Match} (within : m.Within place size)
      (rest : InOrder size m.stop ms) : InOrder size place (m :: ms)

namespace InOrder

variable {size place : Nat} {ms ms' : List Match}

/-- What is in order from a place on is so from an earlier one on. -/
theorem mono (h : InOrder size place ms) {place' : Nat} (hle : place' ≤ place) :
    InOrder size place' ms := by
  cases h with
  | nil => exact .nil
  | cons within rest => exact .cons ⟨Nat.le_trans hle within.1, within.2⟩ rest

/-- Matches that are left out change nothing about the order of the others. -/
theorem sublist (hs : ms'.Sublist ms) (h : InOrder size place ms) : InOrder size place ms' := by
  induction hs generalizing place with
  | slnil => exact h
  | cons m hs ih =>
      cases h with
      | cons within rest => exact (ih rest).mono (Nat.le_trans within.1 within.2.1)
  | cons_cons m hs ih =>
      cases h with
      | cons within rest => exact .cons within (ih rest)

end InOrder

variable {p : Program} {subject : Subject}

/-! ## 1. The order of the matches -/

/-- The next match begins at the place or behind it. -/
theorem Program.nextMatch?_within {place : Nat} {m : Match}
    (h : p.nextMatch? subject place = some m) : m.Within place subject.size := by
  unfold nextMatch? at h
  split at h
  · cases h
  · next m' hm' =>
    split at h
    · have hlater := search_within h
      exact ⟨Nat.le_of_succ_le hlater.1, hlater.2⟩
    · cases h
      exact search_within hm'

theorem inOrder_findBehind (p : Program) (subject : Subject) (place : Nat) :
    InOrder subject.size place (p.findBehind subject place) := by
  fun_induction Program.findBehind p subject place with
  | case1 => exact .nil
  | case2 place m h hstop ih => exact .cons (Program.nextMatch?_within h) ih

/-- **The matches stand one behind the other.** -/
theorem inOrder_findAll (p : Program) (subject : Subject) :
    InOrder subject.size 0 (p.findAll subject) := by
  unfold Program.findAll
  cases h : p.search subject 0 with
  | none => exact .nil
  | some m => exact .cons (Program.search_within h) (inOrder_findBehind p subject m.stop)

/-! ## 2. A match at the beginning -/

/-- What is found behind a place ends behind it. -/
theorem lt_stop_of_mem_findBehind {place : Nat} :
    ∀ m ∈ p.findBehind subject place, place < m.stop := by
  fun_induction Program.findBehind p subject place with
  | case1 => exact nofun
  | case2 place m h hstop ih =>
      refine List.forall_mem_cons.2 ⟨hstop.1, fun m' hm' => ?_⟩
      exact Nat.lt_trans hstop.1 (ih m' hm')

/-- The first match is the empty text at the beginning of the subject. -/
def Program.StartsEmpty (p : Program) (subject : Subject) : Prop :=
  ∃ m, (p.findAll subject).head? = some m ∧ m.start = 0 ∧ m.stop = 0

theorem filter_findBehind (p : Program) (subject : Subject) (place : Nat) :
    (p.findBehind subject place).filter (fun m => m.stop ≠ 0) = p.findBehind subject place := by
  refine List.filter_eq_self.2 fun m hm => ?_
  have hbehind := lt_stop_of_mem_findBehind m hm
  have hne : m.stop ≠ 0 := by omega
  simpa using hne

/-- **Only the first match may end where the subject begins.** -/
theorem filter_findAll (h : ¬ p.StartsEmpty subject) :
    (p.findAll subject).filter (fun m => m.stop ≠ 0) = p.findAll subject := by
  unfold Program.StartsEmpty at h
  unfold Program.findAll at h ⊢
  cases hfirst : p.search subject 0 with
  | none => rfl
  | some m =>
      rw [hfirst] at h
      have hle := (Program.search_within hfirst).2.1
      have hstop : m.stop ≠ 0 := fun hzero => h ⟨m, rfl, by omega, hzero⟩
      rw [List.filter_cons_of_pos (by simpa using hstop), filter_findBehind]

/-- If it does, it is empty, and the others are behind it. -/
theorem findAll_of_startsEmpty (h : p.StartsEmpty subject) :
    ∃ m, m.start = 0 ∧ m.stop = 0 ∧
      p.findAll subject = m :: (p.findAll subject).filter (fun m => m.stop ≠ 0) := by
  obtain ⟨m, hm, hstart, hstop⟩ := h
  refine ⟨m, hstart, hstop, ?_⟩
  unfold Program.findAll at hm ⊢
  cases hfirst : p.search subject 0 with
  | none =>
      rw [hfirst] at hm
      cases hm
  | some m' =>
      rw [hfirst] at hm
      cases hm
      dsimp only
      rw [List.filter_cons_of_neg (by simp [hstop]), filter_findBehind]

end CallScript.Pattern
