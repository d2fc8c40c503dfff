import CallScript.Pattern.Search

/-!
# Successive matches

There are two ways to go through the matches in a subject.

* `Program.findAll`: each search begins where the match before ended, and an empty match right there
  is passed over: then the search begins one character on.
* `Program.findTouching`: each search begins where the match before ended, or one character behind it
  if that match was empty. An empty match right behind another match is kept.
-/

namespace CallScript.Pattern

/-! ## 1. Texts of matches -/

/-- The characters from one place to another. -/
def slice (subject : Subject) (start stop : Nat) : List Char :=
  (subject.extract start stop).toList

namespace Match

/-- The text of a match. -/
def text (subject : Subject) (m : Match) : List Char := slice subject m.start m.stop

/-- The text of a group; group zero is the whole match. A group that took no part has none. -/
def groupText? (subject : Subject) (m : Match) (number : Nat) : Option (List Char) :=
  if number = 0 then some (m.text subject)
  else
    match m.slots[(slotsOf number).1]?, m.slots[(slotsOf number).2]? with
    | some (some start), some (some stop) => some (slice subject start stop)
    | _, _ => none

end Match

namespace Program

/-! ## 2. Matches that do not touch an empty one -/

/-- The next match behind one that ended at the place. -/
def nextMatch? (p : Program) (subject : Subject) (position : Nat) : Option Match :=
  match p.search subject position with
  | none => none
  | some m =>
    if m.start = m.stop ∧ m.stop = position then p.search subject (position + 1) else some m

theorem nextMatch?_stop {p : Program} {subject : Subject} {position : Nat} {m : Match}
    (h : p.nextMatch? subject position = some m) :
    position < m.stop ∧ m.stop ≤ subject.size := by
  unfold nextMatch? at h
  split at h
  · simp at h
  · rename_i m' hm'
    have h₁ := search_within hm'
    split at h
    · have h₂ := search_within h
      simp only [Match.Within] at h₁ h₂
      omega
    · obtain rfl := Option.some.inj h
      simp only [Match.Within] at h₁
      omega

/-- The matches behind one that ended at the place. -/
def findBehind (p : Program) (subject : Subject) (position : Nat) : List Match :=
  match h : p.nextMatch? subject position with
  | none => []
  | some m =>
    have := nextMatch?_stop h
    m :: findBehind p subject m.stop
termination_by subject.size - position

theorem findBehind_none {p : Program} {subject : Subject} {position : Nat}
    (h : p.nextMatch? subject position = none) : p.findBehind subject position = [] := by
  rw [findBehind]
  split
  · rfl
  · next m hm =>
    rw [h] at hm
    cases hm

theorem findBehind_some {p : Program} {subject : Subject} {position : Nat} {m : Match}
    (h : p.nextMatch? subject position = some m) :
    p.findBehind subject position = m :: p.findBehind subject m.stop := by
  rw [findBehind]
  split
  · next hm =>
    rw [h] at hm
    cases hm
  · next m' hm =>
    rw [h] at hm
    cases hm
    rfl

/-- The matches in a subject, from left to right. -/
def findAll (p : Program) (subject : Subject) : List Match :=
  match p.search subject 0 with
  | none => []
  | some m => m :: p.findBehind subject m.stop

/-! ## 3. Matches that may touch an empty one -/

/-- Where the search goes on behind a match. -/
def resume (m : Match) : Nat := if m.start < m.stop then m.stop else m.stop + 1

theorem resume_gt {p : Program} {subject : Subject} {position : Nat} {m : Match}
    (h : p.search subject position = some m) :
    position < resume m ∧ position ≤ subject.size := by
  have := search_within h
  simp only [Match.Within] at this
  unfold resume
  split <;> omega

/-- The matches from a place on. -/
def findTouchingFrom (p : Program) (subject : Subject) (position : Nat) : List Match :=
  match h : p.search subject position with
  | none => []
  | some m =>
    have := resume_gt h
    m :: findTouchingFrom p subject (resume m)
termination_by subject.size + 1 - position

theorem findTouchingFrom_none {p : Program} {subject : Subject} {position : Nat}
    (h : p.search subject position = none) : p.findTouchingFrom subject position = [] := by
  rw [findTouchingFrom]
  split
  · rfl
  · next m hm =>
    rw [h] at hm
    cases hm

theorem findTouchingFrom_some {p : Program} {subject : Subject} {position : Nat} {m : Match}
    (h : p.search subject position = some m) :
    p.findTouchingFrom subject position = m :: p.findTouchingFrom subject (resume m) := by
  rw [findTouchingFrom]
  split
  · next hm =>
    rw [h] at hm
    cases hm
  · next m' hm =>
    rw [h] at hm
    cases hm
    rfl

/-- The matches in a subject, from left to right. -/
def findTouching (p : Program) (subject : Subject) : List Match := p.findTouchingFrom subject 0

end Program

end CallScript.Pattern
