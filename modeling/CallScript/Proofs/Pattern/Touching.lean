import CallScript.Pattern.Matches
import CallScript.Proofs.Pattern.Restart

/-!
# Matches that touch

The two ways to go through the matches in a subject find the same ones, but for empty matches right
behind matches that are not empty (`Program.touching?`): those are found by the one and passed over
by the other.

* `findTouching_eq`: the one way finds what the other one does, and after each match the one that
  touches it;
* `length_findTouching_eq_iff`: so they find equally many exactly when no match is touched.

Behind an empty match both ways go on one character later. For the one that passes over empty
matches this is so because its search begins at the empty match and finds it once more
(`search_of_le`).
-/

namespace CallScript.Pattern.Program

variable {p : Program} {subject : Subject}

/-! ## 1. What touches a match -/

/-- The empty match right behind a match that is not empty, if there is one. -/
def touching? (p : Program) (subject : Subject) (m : Match) : Option Match :=
  if m.start < m.stop then
    (p.search subject m.stop).filter fun e => e.start = e.stop ∧ e.stop = m.stop
  else none

/-- A match, and the one that touches it. -/
def withTouching (p : Program) (subject : Subject) (m : Match) : List Match :=
  m :: (p.touching? subject m).toList

/-! ## 2. Going through the matches -/

/-- What passes over an empty match searches one character on. -/
theorem nextMatch?_of_empty {place : Nat} {e : Match} (h : p.search subject place = some e)
    (he : e.start = e.stop ∧ e.stop = place) :
    p.nextMatch? subject place = p.search subject (place + 1) := by
  unfold nextMatch?
  rw [h]
  exact if_pos he

theorem nextMatch?_of_not_empty {place : Nat}
    (h : ∀ e, p.search subject place = some e → ¬ (e.start = e.stop ∧ e.stop = place)) :
    p.nextMatch? subject place = p.search subject place := by
  unfold nextMatch?
  cases hm : p.search subject place with
  | none => rfl
  | some m => exact if_neg (h m hm)

/-- **Where a match is touched, one way finds the empty match and the other one does not**; both go
    on from the same place. -/
theorem touching?_cases {place : Nat} {m : Match} (h : p.search subject place = some m) :
    ∃ on, p.nextMatch? subject m.stop = p.search subject on ∧
      p.findTouchingFrom subject (resume m) =
        (p.touching? subject m).toList ++ p.findTouchingFrom subject on := by
  have hwithin := search_within h
  simp only [Match.Within] at hwithin
  by_cases hlt : m.start < m.stop
  · have hresume : resume m = m.stop := if_pos hlt
    have htouching : p.touching? subject m =
        (p.search subject m.stop).filter fun e => e.start = e.stop ∧ e.stop = m.stop :=
      if_pos hlt
    rw [hresume, htouching]
    cases he : p.search subject m.stop with
    | none =>
        refine ⟨m.stop, nextMatch?_of_not_empty fun e h => ?_, rfl⟩
        rw [he] at h
        cases h
    | some e =>
        by_cases hempty : e.start = e.stop ∧ e.stop = m.stop
        · have hon : resume e = m.stop + 1 := by
            unfold resume
            rw [if_neg (by omega), hempty.2]
          refine ⟨m.stop + 1, nextMatch?_of_empty he hempty, ?_⟩
          rw [findTouchingFrom_some he, hon, Option.filter_some_pos (by simpa using hempty)]
          rfl
        · refine ⟨m.stop, nextMatch?_of_not_empty fun e' h => ?_, ?_⟩
          · rw [he] at h
            cases h
            exact hempty
          · rw [Option.filter_some_neg (by simpa using hempty)]
            rfl
  · have hempty : m.start = m.stop ∧ m.stop = m.stop := ⟨by omega, rfl⟩
    have hagain : p.search subject m.stop = some m := search_of_le h (by omega) (by omega)
    have hresume : resume m = m.stop + 1 := if_neg hlt
    have hnone : p.touching? subject m = none := if_neg hlt
    refine ⟨m.stop + 1, nextMatch?_of_empty hagain hempty, ?_⟩
    rw [hresume, hnone]
    rfl

/-- Behind a match, the one way finds what touches it, and then what the other one finds, each with
    what touches it. -/
theorem findTouchingFrom_resume {place : Nat} {m : Match} (h : p.search subject place = some m) :
    p.findTouchingFrom subject (resume m) =
      (p.touching? subject m).toList ++
        (p.findBehind subject m.stop).flatMap (p.withTouching subject) := by
  obtain ⟨on, hnext, hresume⟩ := touching?_cases h
  rw [hresume]
  cases hm : p.nextMatch? subject m.stop with
  | none =>
      rw [hm] at hnext
      rw [findBehind_none hm, findTouchingFrom_none hnext.symm]
      rfl
  | some m' =>
      have hstop := nextMatch?_stop hm
      rw [hm] at hnext
      rw [findBehind_some hm, findTouchingFrom_some hnext.symm,
        findTouchingFrom_resume hnext.symm, List.flatMap_cons]
      rfl
termination_by subject.size - m.stop

/-- **The one way finds what the other one finds, and behind each match what touches it.** -/
theorem findTouching_eq (p : Program) (subject : Subject) :
    p.findTouching subject = (p.findAll subject).flatMap (p.withTouching subject) := by
  unfold findTouching findAll
  cases h : p.search subject 0 with
  | none => exact findTouchingFrom_none h
  | some m =>
      rw [findTouchingFrom_some h, findTouchingFrom_resume h]
      rfl

/-- Where no match is touched, both ways find the same matches. -/
theorem findTouching_eq_findAll (h : ∀ m ∈ p.findAll subject, p.touching? subject m = none) :
    p.findTouching subject = p.findAll subject := by
  have hsingle : (p.findAll subject).map (p.withTouching subject) =
      (p.findAll subject).map fun m => [m] :=
    List.map_congr_left fun m hm => by
      rw [withTouching, h m hm]
      rfl
  rw [findTouching_eq, List.flatMap_def, hsingle, ← List.flatMap_def, List.flatMap_singleton']

/-! ## 3. Numbers of matches -/

/-- As many more are found as matches are touched. -/
theorem length_findTouching (p : Program) (subject : Subject) :
    (p.findTouching subject).length =
      (p.findAll subject).length +
        ((p.findAll subject).filterMap (p.touching? subject)).length := by
  rw [findTouching_eq]
  induction p.findAll subject with
  | nil => rfl
  | cons m ms ih =>
      rw [List.flatMap_cons, List.length_append, ih, withTouching, List.filterMap_cons]
      cases p.touching? subject m with
      | none =>
          simp only [Option.toList_none, List.length_cons, List.length_nil]
          omega
      | some e =>
          simp only [Option.toList_some, List.length_cons, List.length_nil]
          omega

/-- **Both ways find equally many matches exactly when none is touched.** -/
theorem length_findTouching_eq_iff (p : Program) (subject : Subject) :
    (p.findTouching subject).length = (p.findAll subject).length ↔
      ∀ m ∈ p.findAll subject, p.touching? subject m = none := by
  rw [length_findTouching, ← List.filterMap_eq_nil_iff, ← List.length_eq_zero_iff]
  omega

/-- There are no more matches than places between characters, from the place on. -/
theorem length_findTouchingFrom_le (p : Program) (subject : Subject) (place : Nat) :
    (p.findTouchingFrom subject place).length ≤ subject.size + 1 - place := by
  cases h : p.search subject place with
  | none =>
      rw [findTouchingFrom_none h]
      exact Nat.zero_le _
  | some m =>
      have hresume := resume_gt h
      have ih := length_findTouchingFrom_le p subject (resume m)
      rw [findTouchingFrom_some h, List.length_cons]
      omega
termination_by subject.size + 1 - place

/-- What passes over empty matches finds no more than what does not. -/
theorem length_findAll_le (p : Program) (subject : Subject) :
    (p.findAll subject).length ≤ subject.size + 1 := by
  have hsum := length_findTouching p subject
  have hle : (p.findTouching subject).length ≤ subject.size + 1 :=
    length_findTouchingFrom_le p subject 0
  omega

end CallScript.Pattern.Program
