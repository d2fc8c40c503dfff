import CallScript.Pattern.Program

/-!
# Searching

A program is run over a subject in lockstep: at every place between two characters there is a list of
threads, in the order in which they are preferred, and each step of the program is entered at most
once at each place, by the first thread that comes to it. Threads that come to `accept` give a match
and cut off the threads behind them; as long as nothing has matched, a new thread starts at every
place, behind all others. So the match that is found begins leftmost, and among those that begin
there it is the one that a search with backtracking prefers.

* `follow` spreads threads over the steps that take no character.
* `advance` moves threads over a character.
* `Program.search` finds the first match from a place on, and `Program.search_within` says where it can lie.
-/

namespace CallScript.Pattern

/-! ## 1. Threads -/

/-- Where the groups of a match begin and end. -/
abbrev Slots := Array (Option Nat)

/-- A thread: the step it is at, the place it started at, and what it has noted. -/
structure Thread where
  step : Nat
  start : Nat
  slots : Slots

/-- The thread at another step. -/
def Thread.goto (t : Thread) (step : Nat) : Thread := ⟨step, t.start, t.slots⟩

/-- The thread at each of several steps. -/
def Thread.gotoAll (t : Thread) (steps : List Nat) : List Thread := steps.map t.goto

/-- The steps that have been entered at a place. -/
abbrev Marks := Array Bool

/-- The number of steps that have not been entered. -/
def unmarked (marks : Marks) : Nat := marks.count false

theorem unmarked_set_lt {marks : Marks} {i : Nat} (h : i < marks.size) (hm : marks[i] = false) :
    unmarked (marks.set i true) < unmarked marks := by
  have hpos : 0 < marks.count false := Array.count_pos_iff.2 (hm ▸ Array.getElem_mem h)
  rw [unmarked, unmarked, Array.count_set, hm]
  exact Nat.sub_lt hpos Nat.one_pos

/-! ## 2. Steps that take no character -/

/-- What a search knows about the place it is at. -/
structure Spot where
  position : Nat
  before : Option Char
  after : Option Char

/-- The text that is searched. -/
abbrev Subject := Array Char

/-- The character in front of a place. -/
def before? (subject : Subject) (position : Nat) : Option Char :=
  if position = 0 then none else subject[position - 1]?

/-- A place in the subject, with the characters at its sides. -/
def spot (subject : Subject) (position : Nat) : Spot :=
  ⟨position, before? subject position, subject[position]?⟩

/-- Spreads the threads of a stack over the steps that take no character. The threads that come to a
    step that takes one, or to the end of the program, are added in order. -/
def follow (p : Program) (here : Spot) (marks : Marks) (found : Array Thread) :
    List Thread → Marks × Array Thread
  | [] => (marks, found)
  | t :: stack =>
    if h : t.step < marks.size then
      if hm : marks[t.step] = true then follow p here marks found stack
      else
        have := unmarked_set_lt h (Bool.eq_false_iff.2 hm)
        let marks := marks.set t.step true
        match p.steps[t.step]? with
        | none => follow p here marks found stack
        | some (.look l next) =>
          if l.holds here.before here.after then follow p here marks found (t.goto next :: stack)
          else follow p here marks found stack
        | some (.fork nexts) => follow p here marks found (t.gotoAll nexts ++ stack)
        | some (.save slot next) =>
          let slots := t.slots.setIfInBounds slot (some here.position)
          follow p here marks found (⟨next, t.start, slots⟩ :: stack)
        | some _ => follow p here marks (found.push t) stack
    else follow p here marks found stack
termination_by stack => (unmarked marks, stack.length)

/-! ## 3. Steps that take a character -/

/-- A match: where it begins and ends, and what its groups noted. -/
structure Match where
  start : Nat
  stop : Nat
  slots : Slots

/-- The step behind a step that takes the character. -/
def Step.take? (c : Char) : Step → Option Nat
  | .char d next => if c = d then some next else none
  | .set s next => if s.contains c then some next else none
  | _ => none

/-- What a search knows at a place: the steps that have been entered, the threads in order, and the
    best match so far. -/
structure Front where
  marks : Marks
  threads : Array Thread
  best : Option Match

/-- Moves the threads over the next character, if there is one, to the spot behind it. A thread at the
    end of the program gives a match, and the threads behind it are dropped. -/
def advance (p : Program) (here there : Spot) : Front → List Thread → Front
  | f, [] => f
  | ⟨marks, threads, best⟩, t :: ts =>
    match p.steps[t.step]? with
    | none => advance p here there ⟨marks, threads, best⟩ ts
    | some .accept => ⟨marks, threads, some ⟨t.start, here.position, t.slots⟩⟩
    | some step =>
      match here.after.bind step.take? with
      | none => advance p here there ⟨marks, threads, best⟩ ts
      | some next =>
        let (marks, threads) := follow p there marks threads [t.goto next]
        advance p here there ⟨marks, threads, best⟩ ts

/-! ## 4. The search -/

/-- No step has been entered. -/
def Program.fresh (p : Program) : Marks := Array.replicate p.steps.size false

/-- Nothing has been noted. -/
def Program.blank (p : Program) : Slots := Array.replicate p.slots none

/-- The threads at a place: those that came here, and the one that starts here as long as nothing has
    matched. -/
def seeded (p : Program) (here : Spot) : Front → Array Thread
  | ⟨marks, threads, none⟩ => (follow p here marks threads [⟨p.start, here.position, p.blank⟩]).2
  | ⟨_, threads, some _⟩ => threads

/-- Runs the program from a place to the end of the subject, which is `left` characters away. -/
def scan (p : Program) (subject : Subject) (position : Nat) (f : Front) : (left : Nat) → Option Match
  | 0 =>
    let here := spot subject position
    (advance p here here ⟨#[], #[], f.best⟩ (seeded p here f).toList).best
  | left + 1 =>
    if f.threads.isEmpty && f.best.isSome then f.best
    else
      let here := spot subject position
      let there := spot subject (position + 1)
      let best := f.best
      scan p subject (position + 1)
        (advance p here there ⟨p.fresh, #[], best⟩ (seeded p here f).toList) left

/-- The first match in the subject that begins at the place or behind it. -/
def Program.search (p : Program) (subject : Subject) (position : Nat) : Option Match :=
  if subject.size < position then none
  else scan p subject position ⟨p.fresh, #[], none⟩ (subject.size - position)

/-! ## 5. Where a match can lie -/

/-- The match lies between the two places. -/
def Match.Within (lo hi : Nat) (m : Match) : Prop := lo ≤ m.start ∧ m.start ≤ m.stop ∧ m.stop ≤ hi

/-- The threads and the match of a front started and lie between the two places. -/
structure Front.Within (lo hi : Nat) (f : Front) : Prop where
  threads : ∀ t ∈ f.threads, lo ≤ t.start ∧ t.start ≤ hi
  best : ∀ m, f.best = some m → m.Within lo hi

/-- Following steps does not change where threads started. -/
theorem follow_start (p : Program) (here : Spot) (P : Nat → Prop) (marks : Marks)
    (found : Array Thread) (stack : List Thread) (hf : ∀ t ∈ found, P t.start)
    (hs : ∀ t ∈ stack, P t.start) : ∀ t ∈ (follow p here marks found stack).2, P t.start := by
  fun_induction follow p here marks found stack with
  | case1 => exact hf
  | case2 | case3 | case5 | case9 => simp_all
  | case4 | case7 => simp_all [Thread.goto]
  | case6 _ _ t stack _ _ _ _ nexts _ ih =>
    refine ih hf fun u hu => ?_
    rcases List.mem_append.1 hu with hu | hu
    · obtain ⟨n, _, rfl⟩ := List.mem_map.1 hu
      exact hs t (by simp)
    · exact hs u (by simp [hu])
  | case8 _ _ t stack _ _ _ _ step _ _ _ _ ih =>
    refine ih (fun u hu => ?_) (by simp_all)
    rcases Array.mem_push.1 hu with hu | rfl
    · exact hf u hu
    · exact hs _ (by simp)

theorem within_advance (p : Program) (here there : Spot) (lo : Nat) (f : Front) (ts : List Thread)
    (hle : here.position ≤ there.position) (hf : f.Within lo there.position)
    (ht : ∀ t ∈ ts, lo ≤ t.start ∧ t.start ≤ here.position) :
    (advance p here there f ts).Within lo there.position := by
  fun_induction advance p here there f ts with
  | case1 => exact hf
  | case2 | case4 => simp_all
  | case3 marks threads best t ts _ =>
    refine ⟨hf.threads, fun m hm => ?_⟩
    obtain rfl := Option.some.inj hm
    have := ht t (by simp)
    exact ⟨this.1, this.2, hle⟩
  | case5 marks threads best t ts step _ _ next _ marks' threads' hfollow ih =>
    have h := follow_start p there (fun n => lo ≤ n ∧ n ≤ there.position) marks threads
      [t.goto next] hf.threads (by
        have := ht t (by simp)
        simp [Thread.goto]
        omega)
    rw [hfollow] at h
    exact ih ⟨h, hf.best⟩ fun u hu => ht u (by simp [hu])

theorem start_seeded (p : Program) (here : Spot) (lo : Nat) (f : Front) (hlo : lo ≤ here.position)
    (hf : f.Within lo here.position) :
    ∀ t ∈ (seeded p here f).toList, lo ≤ t.start ∧ t.start ≤ here.position := by
  intro t ht
  have ht : t ∈ seeded p here f := by simpa using ht
  obtain ⟨marks, threads, best⟩ := f
  cases best with
  | some m => exact hf.threads t ht
  | none =>
    exact follow_start p here (fun n => lo ≤ n ∧ n ≤ here.position) marks threads _ hf.threads
      (by simpa using hlo) t ht

theorem Front.Within.mono {lo hi hi' : Nat} {f : Front} (h : f.Within lo hi) (hle : hi ≤ hi') :
    f.Within lo hi' := by
  refine ⟨fun t ht => ?_, fun m hm => ?_⟩
  · have := h.threads t ht
    omega
  · have := h.best m hm
    simp only [Match.Within] at this ⊢
    omega

theorem within_scan (p : Program) (subject : Subject) (lo position : Nat) (f : Front) (left : Nat)
    (hlo : lo ≤ position) (hf : f.Within lo position) {m : Match}
    (hm : scan p subject position f left = some m) : m.Within lo (position + left) := by
  induction left generalizing position f with
  | zero =>
    have h := within_advance p (spot subject position) (spot subject position) lo
      ⟨#[], #[], f.best⟩ (seeded p (spot subject position) f).toList (Nat.le_refl _)
      ⟨by simp, hf.best⟩ (start_seeded p _ lo f hlo hf)
    exact h.best m hm
  | succ left ih =>
    simp only [scan] at hm
    split at hm
    · exact (hf.mono (Nat.le_add_right _ (left + 1))).best m hm
    · have hle : position ≤ position + 1 := Nat.le_succ _
      have h := within_advance p (spot subject position) (spot subject (position + 1)) lo
        ⟨p.fresh, #[], f.best⟩ (seeded p (spot subject position) f).toList hle
        (Front.Within.mono ⟨by simp, hf.best⟩ hle) (start_seeded p _ lo f hlo hf)
      have := ih (position + 1) _ (by omega) h hm
      simp only [Match.Within] at this ⊢
      omega

/-- **A match lies between the place at which the search begins and the end of the subject.** -/
theorem Program.search_within {p : Program} {subject : Subject} {position : Nat} {m : Match}
    (h : p.search subject position = some m) : m.Within position subject.size := by
  unfold search at h
  split at h
  · simp at h
  · have := within_scan p subject position position _ _ (Nat.le_refl _) ⟨by simp, by simp⟩ h
    simp only [Match.Within] at this ⊢
    omega

end CallScript.Pattern
