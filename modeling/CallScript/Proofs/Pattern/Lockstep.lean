import CallScript.Pattern.Search

/-!
# A search, one thread after the other

What a search does with one thread, as one equation for each case.

* `spread_entered` and `spread_open`: a thread is dropped if its step was entered before. Otherwise
  the step is entered, the thread is added if it rests there (`Program.rests`), and else it goes on
  (`Program.goOn`) at the steps behind it (`Program.nexts`). These are the cases of an induction on
  the stack (`Front.spread_induction`).
* `advance_accept` and `advance_move`: a thread gives a match and cuts off those behind it, or it is
  moved over the character (`Front.move`), if it takes it (`Program.taken?`).
* `scan_succ`: a search goes on at the next place, also where it could stop.
-/

namespace CallScript.Pattern

/-! ## 1. Steps that are entered -/

/-- The step has been entered, or there is none with this number. -/
def entered (marks : Marks) (k : Nat) : Bool := marks[k]?.getD true

/-- The marks after a step was entered. -/
def enter (marks : Marks) (k : Nat) : Marks := marks.setIfInBounds k true

theorem entered_enter (marks : Marks) (k j : Nat) :
    entered (enter marks k) j = (decide (k = j) || entered marks j) := by
  unfold entered enter
  rw [Array.getElem?_setIfInBounds]
  by_cases h : k = j
  · rw [if_pos h, decide_eq_true h]
    split
    · rfl
    · rfl
  · rw [if_neg h, decide_eq_false h, Bool.false_or]

/-- In marks of no steps, every step counts as entered. -/
theorem entered_empty (k : Nat) : entered #[] k = true := rfl

/-- A step that is not entered is there, and it is not marked. -/
theorem entered_eq_false {k : Nat} {marks : Marks} :
    entered marks k = false ↔ ∃ h : k < marks.size, marks[k] = false := by
  unfold entered
  by_cases h : k < marks.size
  · rw [Array.getElem?_eq_getElem h, Option.getD_some]
    exact ⟨fun hmark => ⟨h, hmark⟩, fun ⟨_, hmark⟩ => hmark⟩
  · rw [Array.getElem?_eq_none (Nat.le_of_not_lt h)]
    exact ⟨nofun, fun ⟨hlt, _⟩ => absurd hlt h⟩

theorem enter_of_lt {marks : Marks} {k : Nat} (h : k < marks.size) :
    enter marks k = marks.set k true h := by
  unfold enter
  rw [Array.setIfInBounds, dif_pos h]

/-- Entering a step leaves fewer steps to enter. -/
theorem unmarked_enter_lt {marks : Marks} {k : Nat} (h : entered marks k = false) :
    unmarked (enter marks k) < unmarked marks := by
  obtain ⟨hlt, hmark⟩ := entered_eq_false.1 h
  rw [enter_of_lt hlt]
  exact unmarked_set_lt hlt hmark

/-! ## 2. Steps that take no character -/

namespace Program

/-- Where a thread goes on that comes to the step, if it goes on without a character. -/
def nexts (p : Program) (here : Spot) (k : Nat) : List Nat :=
  match p.steps[k]? with
  | some (.look l next) => if l.holds here.before here.after then [next] else []
  | some (.fork nexts) => nexts
  | some (.save _ next) => [next]
  | _ => []

/-- A thread that comes to the step stays there: the step takes a character or ends the program. -/
def rests (p : Program) (k : Nat) : Bool :=
  match p.steps[k]? with
  | some (.look _ _) | some (.fork _) | some (.save _ _) | none => false
  | some _ => true

/-- The threads that a thread goes on as, if it goes on without a character. -/
def goOn (p : Program) (here : Spot) (t : Thread) : List Thread :=
  match p.steps[t.step]? with
  | some (.look l next) => if l.holds here.before here.after then [t.goto next] else []
  | some (.fork nexts) => t.gotoAll nexts
  | some (.save slot next) =>
    [⟨next, t.start, t.slots.setIfInBounds slot (some here.position)⟩]
  | _ => []

variable {p : Program} {here : Spot}

/-- What a thread goes on as is at the steps behind its own, and started where it did. -/
theorem mem_goOn {t u : Thread} (h : u ∈ p.goOn here t) :
    u.step ∈ p.nexts here t.step ∧ u.start = t.start := by
  unfold goOn at h
  unfold nexts
  split at h
  · split at h
    · next hl =>
      rw [List.mem_singleton.1 h]
      simp [Thread.goto, hl]
    · exact absurd h List.not_mem_nil
  · obtain ⟨n, hn, rfl⟩ := List.mem_map.1 h
    exact ⟨hn, rfl⟩
  · rw [List.mem_singleton.1 h]
    simp
  · exact absurd h List.not_mem_nil

/-- At each of the steps behind its own there is a thread that it goes on as. -/
theorem exists_mem_goOn {t : Thread} {n : Nat} (h : n ∈ p.nexts here t.step) :
    ∃ u ∈ p.goOn here t, u.step = n := by
  unfold nexts at h
  unfold goOn
  split at h
  · split at h
    · next hl =>
      rw [List.mem_singleton.1 h]
      simp [Thread.goto, hl]
    · exact absurd h List.not_mem_nil
  · exact ⟨t.goto n, List.mem_map_of_mem h, rfl⟩
  · rw [List.mem_singleton.1 h]
    simp
  · exact absurd h List.not_mem_nil

end Program

section

variable {p : Program} {here : Spot} {marks : Marks} {found : Array Thread} {t : Thread}
  {stack : List Thread}

/-- A thread is dropped at a step that was entered before. -/
theorem follow_entered (h : entered marks t.step = true) :
    follow p here marks found (t :: stack) = follow p here marks found stack := by
  rw [follow]
  by_cases hlt : t.step < marks.size
  · have hmark : marks[t.step] = true := by
      simpa [entered, Array.getElem?_eq_getElem hlt] using h
    rw [dif_pos hlt, dif_pos hmark]
  · rw [dif_neg hlt]

/-- **A thread enters its step**, where it rests or goes on. -/
theorem follow_open (h : entered marks t.step = false) :
    follow p here marks found (t :: stack) =
      follow p here (enter marks t.step) (if p.rests t.step then found.push t else found)
        (p.goOn here t ++ stack) := by
  obtain ⟨hlt, hmark⟩ := entered_eq_false.1 h
  have hne : ¬ marks[t.step] = true := by
    rw [hmark]
    exact Bool.false_ne_true
  rw [follow, dif_pos hlt, dif_neg hne, enter_of_lt hlt]
  unfold Program.rests Program.goOn
  cases hs : p.steps[t.step]? with
  | none => rfl
  | some step =>
      cases step with
      | look l next =>
          dsimp only
          split
          · rfl
          · rfl
      | char | set | fork | save | accept => rfl

end

/-- The front after the threads of a stack came to the spot. -/
def Front.spread (p : Program) (here : Spot) (f : Front) (stack : List Thread) : Front :=
  ⟨(follow p here f.marks f.threads stack).1, (follow p here f.marks f.threads stack).2, f.best⟩

/-- The front after a thread entered its step. -/
def Front.visit (p : Program) (f : Front) (t : Thread) : Front :=
  ⟨enter f.marks t.step, if p.rests t.step then f.threads.push t else f.threads, f.best⟩

section

variable {p : Program} {here : Spot} {f : Front} {t : Thread} {stack : List Thread}

theorem spread_nil (p : Program) (here : Spot) (f : Front) : f.spread p here [] = f := by
  unfold Front.spread
  rw [follow]

theorem spread_entered (h : entered f.marks t.step = true) :
    f.spread p here (t :: stack) = f.spread p here stack := by
  unfold Front.spread
  rw [follow_entered h]

theorem spread_open (h : entered f.marks t.step = false) :
    f.spread p here (t :: stack) = (f.visit p t).spread p here (p.goOn here t ++ stack) := by
  unfold Front.spread Front.visit
  rw [follow_open h]

/-- Threads at steps that were entered before are dropped, one after the other. -/
theorem spread_append_entered {ts : List Thread} (h : ∀ t ∈ ts, entered f.marks t.step = true) :
    f.spread p here (ts ++ stack) = f.spread p here stack := by
  induction ts with
  | nil => rfl
  | cons t ts ih =>
      obtain ⟨ht, hts⟩ := List.forall_mem_cons.1 h
      rw [List.cons_append, spread_entered ht, ih hts]

end

/-- **Induction on what is left of a stack**: its first thread is dropped, or it enters its step and
    goes on in front of the others. -/
theorem Front.spread_induction (p : Program) (here : Spot) {motive : Front → List Thread → Prop}
    (nil : ∀ f, motive f [])
    (skip : ∀ f t stack, entered f.marks t.step = true → motive f stack → motive f (t :: stack))
    (visit : ∀ f t stack, entered f.marks t.step = false →
      motive (f.visit p t) (p.goOn here t ++ stack) → motive f (t :: stack))
    (f : Front) (stack : List Thread) : motive f stack := by
  match stack with
  | [] => exact nil f
  | t :: stack =>
      by_cases h : entered f.marks t.step = true
      · exact skip f t stack h (spread_induction p here nil skip visit f stack)
      · have h : entered f.marks t.step = false := Bool.eq_false_iff.2 h
        have hlt : unmarked (f.visit p t).marks < unmarked f.marks := unmarked_enter_lt h
        exact visit f t stack h (spread_induction p here nil skip visit _ _)
termination_by (unmarked f.marks, stack.length)

/-! ## 3. Steps that take a character -/

/-- Where a thread at the step goes on behind the next character, if it takes it. -/
def Program.taken? (p : Program) (here : Spot) (k : Nat) : Option Nat :=
  p.steps[k]?.bind fun step => here.after.bind step.take?

/-- The front after a thread was moved over the character, if it takes it. -/
def Front.move (p : Program) (here there : Spot) (f : Front) (t : Thread) : Front :=
  match p.taken? here t.step with
  | none => f
  | some next => f.spread p there [t.goto next]

section

variable {p : Program} {here there : Spot} {f : Front} {t : Thread}

/-- A thread at the end of the program gives the match, and the threads behind it are dropped. -/
theorem advance_accept (h : p.steps[t.step]? = some .accept) (ts : List Thread) :
    advance p here there f (t :: ts) =
      ⟨f.marks, f.threads, some ⟨t.start, here.position, t.slots⟩⟩ := by
  obtain ⟨marks, threads, best⟩ := f
  rw [advance, h]

/-- **Any other thread is moved** before those behind it. -/
theorem advance_move (h : p.steps[t.step]? ≠ some .accept) (ts : List Thread) :
    advance p here there f (t :: ts) = advance p here there (f.move p here there t) ts := by
  obtain ⟨marks, threads, best⟩ := f
  unfold Front.move Program.taken?
  rw [advance]
  split
  · next hs =>
    rw [hs]
    rfl
  · next hs => exact absurd hs h
  · next step _ hs =>
    rw [hs]
    show _ = advance p here there (match here.after.bind step.take? with
      | none => ⟨marks, threads, best⟩
      | some next => Front.spread p there ⟨marks, threads, best⟩ [t.goto next]) ts
    cases here.after.bind step.take? with
    | none => rfl
    | some next => rfl

theorem advance_nil (p : Program) (here there : Spot) (f : Front) :
    advance p here there f [] = f := by
  rw [advance]

end

/-! ## 4. One place after the other -/

section

variable {subject : Subject} {place : Nat}

/-- Once there is a match and no thread is left, the match stands. -/
theorem scan_settled (p : Program) (marks : Marks) (m : Match) (left : Nat) :
    scan p subject place ⟨marks, #[], some m⟩ left = some m := by
  cases left with
  | zero => rfl
  | succ left => rfl

/-- **A search goes on at the next place.** Where it stops, nothing would come of that. -/
theorem scan_succ (p : Program) (f : Front) (left : Nat) :
    scan p subject place f (left + 1) =
      scan p subject (place + 1)
        (advance p (spot subject place) (spot subject (place + 1)) ⟨p.fresh, #[], f.best⟩
          (seeded p (spot subject place) f).toList) left := by
  obtain ⟨marks, threads, best⟩ := f
  rw [scan]
  split
  · next hstop =>
    rw [Bool.and_eq_true, Array.isEmpty_iff] at hstop
    obtain ⟨rfl, hbest⟩ := hstop
    obtain ⟨m, rfl⟩ := Option.isSome_iff_exists.1 hbest
    exact (scan_settled p p.fresh m left).symm
  · rfl

end

end CallScript.Pattern
