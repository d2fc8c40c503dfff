import CallScript.Proofs.Pattern.Lockstep
import CallScript.Proofs.Pattern.Plain
import CallScript.Proofs.Text.Substring

/-!
# Searching for plain patterns

The program of a plain pattern has one step for each character of the text, and a search with it
finds the first occurrence of the text.

While the program runs, each thread has matched the text up to some character and has the rest of it
ahead (`Ahead`). The threads are in the order of their starts, so the rests get longer from thread to
thread: no two threads are at the same step, and only the first one can be at the end of the text.

* `compile_chars` is the program of a text;
* `scan_lanes` is the run of the program from any place on, and `search_plain` the whole search.
-/

namespace CallScript.Pattern

open Text (occursAt occursAt_iff)

/-! ## 1. The program of a text -/

/-- The steps that look for the characters of a text. What is numbered by a length is the step that
    looks for the last characters of that number. -/
def plainSteps : List Char → Steps
  | [] => #[.accept]
  | c :: r => (plainSteps r).push (.char c r.length)

/-- The step that looks for the rest of a text. -/
def stepFor : List Char → Step
  | [] => .accept
  | c :: r => .char c r.length

theorem stepFor_cases (rest : List Char) :
    stepFor rest = .accept ∨ ∃ c next, stepFor rest = .char c next := by
  cases rest with
  | nil => exact Or.inl rfl
  | cons c r => exact Or.inr ⟨c, r.length, rfl⟩

/-- The program that looks for a text. -/
def plainProgram (d : List Char) : Program := ⟨plainSteps d, d.length, 0⟩

theorem size_plainSteps (d : List Char) : (plainSteps d).size = d.length + 1 := by
  induction d with
  | nil => rfl
  | cons c r ih => rw [plainSteps, Array.size_push, ih, List.length_cons]

/-- Each rest of the text has its step. -/
theorem getElem?_plainSteps {d rest : List Char} (h : rest <:+ d) :
    (plainSteps d)[rest.length]? = some (stepFor rest) := by
  induction d with
  | nil =>
      rw [List.suffix_nil.1 h]
      rfl
  | cons c r ih =>
      rw [plainSteps]
      rcases List.suffix_cons_iff.1 h with rfl | hr
      · rw [List.length_cons, ← size_plainSteps r, Array.getElem?_push_size]
        rfl
      · have hlt : rest.length < (plainSteps r).size := by
          rw [size_plainSteps]
          exact Nat.lt_succ_of_le hr.length_le
        rw [Array.getElem?_push_lt hlt, ← Array.getElem?_eq_getElem hlt]
        exact ih hr

theorem emit_ofSequence (es : List Expr) (next : Nat) (steps : Steps) :
    (Expr.ofSequence es).emit next steps = Expr.emitSequence es next steps := by
  match es with
  | [] => rfl
  | [e] => rfl
  | e :: e' :: es => rfl

theorem emitSequence_chars (d : List Char) :
    Expr.emitSequence (d.map Expr.char) 0 #[.accept] = (d.length, plainSteps d) := by
  induction d with
  | nil => rfl
  | cons c r ih =>
      rw [List.map_cons, Expr.emitSequence]
      dsimp only
      rw [ih]
      show ((plainSteps r).size, (plainSteps r).push (.char c r.length)) = _
      rw [size_plainSteps]
      rfl

/-- **The program of characters looks for them as a text.** -/
theorem compile_chars (d : List Char) :
    (Expr.ofSequence (d.map Expr.char)).compile 0 = plainProgram d := by
  unfold Expr.compile
  rw [emit_ofSequence, emitSequence_chars]
  rfl

/-! ## 2. What is ahead -/

/-- What starts at `start` has matched the text up to the place and has `rest` ahead: the text occurs
    at the start exactly when the rest occurs at the place. -/
structure Ahead (d s : List Char) (place start : Nat) (rest : List Char) : Prop where
  suffix : rest <:+ d
  stop : start + d.length = place + rest.length
  occurs : d <+: s.drop start ↔ rest <+: s.drop place

section

variable {d s rest : List Char} {place start : Nat} {c x : Char}

/-- At its start, everything is ahead. -/
theorem Ahead.refl (d s : List Char) (place : Nat) : Ahead d s place place d :=
  ⟨List.suffix_refl d, rfl, Iff.rfl⟩

/-- With nothing ahead, the text has occurred. -/
theorem Ahead.full (h : Ahead d s place start []) :
    occursAt d s start = true ∧ place = start + d.length :=
  ⟨occursAt_iff.2 (h.occurs.2 List.nil_prefix), h.stop.symm⟩

/-- The next character brings the place one character on. -/
theorem Ahead.next (h : Ahead d s place start (c :: rest)) (hs : s[place]? = some c) :
    Ahead d s (place + 1) start rest := by
  obtain ⟨hlt, hc⟩ := List.getElem?_eq_some_iff.1 hs
  refine ⟨(List.suffix_cons c rest).trans h.suffix, ?_, ?_⟩
  · have := h.stop
    simp only [List.length_cons] at this
    omega
  · rw [h.occurs, List.drop_eq_getElem_cons hlt, hc, List.cons_prefix_cons]
    exact and_iff_right rfl

/-- Without the next character, the text does not occur. -/
theorem Ahead.missed (h : Ahead d s place start (c :: rest)) (hs : s[place]? ≠ some c) :
    occursAt d s start = false := by
  rw [Bool.eq_false_iff, Ne, occursAt_iff, h.occurs]
  rintro ⟨t, ht⟩
  apply hs
  rw [← List.head?_drop, ← ht]
  rfl

end

/-! ## 3. Threads -/

/-- A thread of a plain pattern: where it started, and what it has ahead. -/
structure Lane where
  start : Nat
  rest : List Char

/-- The thread of a lane is at the step for what is ahead. -/
def Lane.thread (a : Lane) : Thread := ⟨a.rest.length, a.start, #[]⟩

/-- The lanes at a place: what is ahead gets longer from lane to lane. -/
structure Lanes (d s : List Char) (place : Nat) (lanes : List Lane) : Prop where
  ahead : ∀ a ∈ lanes, Ahead d s place a.start a.rest
  ascending : lanes.Pairwise fun a b => a.rest.length < b.rest.length

/-- The lane behind the next character, if it is the one that is ahead. -/
def Lane.next? (x : Option Char) : Lane → Option Lane
  | ⟨start, c :: rest⟩ => if x = some c then some ⟨start, rest⟩ else none
  | ⟨_, []⟩ => none

theorem Lane.next?_eq_some {x : Option Char} {a b : Lane} (h : a.next? x = some b) :
    ∃ c, a = ⟨b.start, c :: b.rest⟩ ∧ x = some c := by
  obtain ⟨start, _ | ⟨c, rest⟩⟩ := a
  · cases h
  · simp only [Lane.next?] at h
    split at h
    · next hx =>
      cases h
      exact ⟨c, rfl, hx⟩
    · cases h

/-- From a step on, none has been entered. -/
structure Clear (d : List Char) (marks : Marks) (step : Nat) : Prop where
  size : marks.size = d.length + 1
  clear : ∀ k, step ≤ k → k ≤ d.length → marks[k]? = some false

theorem clear_fresh (d : List Char) (step : Nat) : Clear d (plainProgram d).fresh step := by
  have hsize : (plainProgram d).fresh.size = d.length + 1 := by
    rw [Program.fresh, Array.size_replicate]
    exact size_plainSteps d
  refine ⟨hsize, fun k _ hk => ?_⟩
  have hlt : k < (plainProgram d).steps.size := by
    show k < (plainSteps d).size
    rw [size_plainSteps]
    omega
  rw [Program.fresh, Array.getElem?_replicate, if_pos hlt]

section

variable {d : List Char} {subject : Subject} {place : Nat}

/-- A thread that enters its step first is added, for the step takes a character or ends the
    program. -/
theorem follow_lane {here : Spot} {marks : Marks} {found : Array Thread} {a : Lane}
    (hs : a.rest <:+ d) {step : Nat} (hc : Clear d marks step) (hle : step ≤ a.rest.length) :
    ∃ marks', follow (plainProgram d) here marks found [a.thread] = (marks', found.push a.thread) ∧
      Clear d marks' (a.rest.length + 1) := by
  have hmark : marks[a.thread.step]? = some false := hc.clear _ hle hs.length_le
  obtain ⟨hlt, hfalse⟩ := Array.getElem?_eq_some_iff.1 hmark
  have hstep : (plainProgram d).steps[a.thread.step]? = some (stepFor a.rest) :=
    getElem?_plainSteps hs
  refine ⟨marks.set a.thread.step true, ?_, by simpa using hc.size, fun k hk hkd => ?_⟩
  · rw [follow, dif_pos hlt, dif_neg (by rw [hfalse]; exact Bool.false_ne_true), hstep]
    rcases stepFor_cases a.rest with h | ⟨c, next, h⟩
    · simp only [h, follow]
    · simp only [h, follow]
  · have hne : a.thread.step ≠ k := Nat.ne_of_lt hk
    rw [Array.getElem?_set_ne hlt hne]
    exact hc.clear k (Nat.le_trans hle (Nat.le_of_succ_le hk)) hkd

/-- The lane that starts at a place is behind all others. -/
theorem Lanes.seed {lanes : List Lane} (h : Lanes d subject.toList place lanes)
    (hlt : ∀ a ∈ lanes, a.rest.length < d.length) :
    Lanes d subject.toList place (lanes ++ [⟨place, d⟩]) := by
  refine ⟨fun a ha => ?_, ?_⟩
  · rcases List.mem_append.1 ha with ha | ha
    · exact h.ahead a ha
    · obtain rfl := List.mem_singleton.1 ha
      exact .refl d _ place
  · refine List.pairwise_append.2 ⟨h.ascending, List.pairwise_singleton _ _, fun a ha b hb => ?_⟩
    obtain rfl := List.mem_singleton.1 hb
    exact hlt a ha

/-- Behind the next character the lanes are lanes again. -/
theorem Lanes.next {s : List Char} {lanes : List Lane} (h : Lanes d s place lanes) :
    Lanes d s (place + 1) (lanes.filterMap (Lane.next? s[place]?)) := by
  refine ⟨fun b hb => ?_, h.ascending.filterMap _ fun a a' hlt b hb b' hb' => ?_⟩
  · obtain ⟨a, ha, hab⟩ := List.mem_filterMap.1 hb
    obtain ⟨c, rfl, hx⟩ := Lane.next?_eq_some hab
    exact (h.ahead _ ha).next hx
  · obtain ⟨c, rfl, -⟩ := Lane.next?_eq_some hb
    obtain ⟨c', rfl, -⟩ := Lane.next?_eq_some hb'
    exact Nat.succ_lt_succ_iff.1 hlt

/-- Where the lanes that the next character ends started, the text does not occur. -/
theorem find?_next {s : List Char} {lanes : List Lane} {others : List Nat}
    (h : ∀ a ∈ lanes, Ahead d s place a.start a.rest) (hne : ∀ a ∈ lanes, a.rest ≠ []) :
    ((lanes.filterMap (Lane.next? s[place]?)).map Lane.start ++ others).find? (occursAt d s) =
      (lanes.map Lane.start ++ others).find? (occursAt d s) := by
  induction lanes with
  | nil => rfl
  | cons a lanes ih =>
      have ih := ih (fun b hb => h b (List.mem_cons_of_mem _ hb)) fun b hb =>
        hne b (List.mem_cons_of_mem _ hb)
      have ha := h a List.mem_cons_self
      obtain ⟨start, _ | ⟨c, rest⟩⟩ := a
      · exact absurd rfl (hne _ List.mem_cons_self)
      · by_cases hx : s[place]? = some c
        · have hn : Lane.next? s[place]? ⟨start, c :: rest⟩ = some ⟨start, rest⟩ := if_pos hx
          rw [List.filterMap_cons_some hn]
          simp only [List.map_cons, List.cons_append, List.find?_cons]
          rw [ih]
        · have hn : Lane.next? s[place]? ⟨start, c :: rest⟩ = none := if_neg hx
          rw [List.filterMap_cons_none hn, ih]
          simp only [List.map_cons, List.cons_append, List.find?_cons, ha.missed hx]

/-! ## 4. One place after the other -/

/-- A thread at the end of the text gives the match, and the threads behind it are dropped. -/
theorem advance_full {here there : Spot} {marks : Marks} {found : Array Thread} {a : Lane}
    (ha : a.rest = []) (ts : List Thread) :
    advance (plainProgram d) here there ⟨marks, found, none⟩ (a.thread :: ts) =
      ⟨marks, found, some ⟨a.start, here.position, #[]⟩⟩ := by
  obtain ⟨start, rest⟩ := a
  obtain rfl : rest = [] := ha
  have hstep : (plainProgram d).steps[(Lane.thread ⟨start, []⟩).step]? = some .accept :=
    getElem?_plainSteps (List.nil_suffix)
  rw [advance, hstep]
  rfl

section

variable {here there : Spot} {marks : Marks} {found : Array Thread} {best : Option Match}
  {start : Nat} {c : Char} {rest : List Char}

/-- A thread that has another character ahead is dropped. -/
theorem advance_missed (hs : c :: rest <:+ d) (hx : here.after ≠ some c) (ts : List Thread) :
    advance (plainProgram d) here there ⟨marks, found, best⟩
        (Lane.thread ⟨start, c :: rest⟩ :: ts) =
      advance (plainProgram d) here there ⟨marks, found, best⟩ ts := by
  have hstep : (plainProgram d).steps[(Lane.thread ⟨start, c :: rest⟩).step]? =
      some (.char c rest.length) := getElem?_plainSteps hs
  have htake : here.after.bind (Step.take? · (.char c rest.length)) = none := by
    cases hafter : here.after with
    | none => rfl
    | some x =>
        have hne : x ≠ c := by
          rintro rfl
          exact hx hafter
        exact if_neg hne
  rw [advance, hstep]
  simp only [htake]

/-- A thread that has the next character ahead goes on behind it. -/
theorem advance_next (hs : c :: rest <:+ d) (hx : here.after = some c) {step : Nat}
    (hc : Clear d marks step) (hle : step ≤ rest.length) (ts : List Thread) :
    ∃ marks', advance (plainProgram d) here there ⟨marks, found, best⟩
        (Lane.thread ⟨start, c :: rest⟩ :: ts) =
      advance (plainProgram d) here there
        ⟨marks', found.push (Lane.thread ⟨start, rest⟩), best⟩ ts ∧
      Clear d marks' (rest.length + 1) := by
  have hstep : (plainProgram d).steps[(Lane.thread ⟨start, c :: rest⟩).step]? =
      some (.char c rest.length) := getElem?_plainSteps hs
  have htake : here.after.bind (Step.take? · (.char c rest.length)) = some rest.length := by
    rw [hx]
    exact if_pos rfl
  obtain ⟨marks', hfollow, hc'⟩ := @follow_lane d there marks found ⟨start, rest⟩
    ((List.suffix_cons c rest).trans hs) step hc hle
  have hgoto : (Lane.thread ⟨start, c :: rest⟩).goto rest.length = Lane.thread ⟨start, rest⟩ := rfl
  refine ⟨marks', ?_, hc'⟩
  rw [advance, hstep]
  simp only [htake, hgoto, hfollow]

end

/-- At the end of the subject the threads that have characters ahead are dropped. -/
theorem advance_at_end {here there : Spot} (hx : here.after = none) {marks : Marks}
    {found : Array Thread} {lanes : List Lane} (hs : ∀ a ∈ lanes, a.rest <:+ d)
    (hne : ∀ a ∈ lanes, a.rest ≠ []) :
    advance (plainProgram d) here there ⟨marks, found, none⟩ (lanes.map Lane.thread) =
      ⟨marks, found, none⟩ := by
  induction lanes with
  | nil => rfl
  | cons a lanes ih =>
      obtain ⟨start, _ | ⟨c, rest⟩⟩ := a
      · exact absurd rfl (hne _ List.mem_cons_self)
      · have hafter : here.after ≠ some c := by
          rw [hx]
          exact nofun
        rw [List.map_cons, advance_missed (hs _ List.mem_cons_self) hafter]
        exact ih (fun b hb => hs b (List.mem_cons_of_mem _ hb)) fun b hb =>
          hne b (List.mem_cons_of_mem _ hb)

/-- **The threads that have characters ahead go on behind the next character**, if it is the one
    that they have ahead. -/
theorem advance_lanes {lanes : List Lane} (h : Lanes d subject.toList place lanes)
    (hne : ∀ a ∈ lanes, a.rest ≠ []) {marks : Marks} {found : Array Thread} {step : Nat}
    (hc : Clear d marks step) (hstep : ∀ a ∈ lanes, step < a.rest.length)
    (hle : step ≤ d.length) :
    ∃ marks', advance (plainProgram d) (spot subject place) (spot subject (place + 1))
        ⟨marks, found, none⟩ (lanes.map Lane.thread) =
      ⟨marks', found ++
        ((lanes.filterMap (Lane.next? subject.toList[place]?)).map Lane.thread).toArray, none⟩ ∧
      Clear d marks' d.length := by
  induction lanes generalizing marks found step with
  | nil => exact ⟨marks, by simp [advance], hc.size, fun k hk hkd => hc.clear k (by omega) hkd⟩
  | cons a lanes ih =>
      have hlanes : Lanes d subject.toList place lanes :=
        ⟨fun b hb => h.ahead b (List.mem_cons_of_mem _ hb), (List.pairwise_cons.1 h.ascending).2⟩
      have hne' : ∀ b ∈ lanes, b.rest ≠ [] := fun b hb => hne b (List.mem_cons_of_mem _ hb)
      have hlonger := (List.pairwise_cons.1 h.ascending).1
      have hsuffix := (h.ahead a List.mem_cons_self).suffix
      have hhead := hstep a List.mem_cons_self
      have hafter : (spot subject place).after = subject.toList[place]? :=
        (Array.getElem?_toList).symm
      obtain ⟨start, _ | ⟨c, rest⟩⟩ := a
      · exact absurd rfl (hne _ List.mem_cons_self)
      · by_cases hx : subject.toList[place]? = some c
        · have hn : Lane.next? subject.toList[place]? ⟨start, c :: rest⟩ = some ⟨start, rest⟩ :=
            if_pos hx
          obtain ⟨marks', hadvance, hc'⟩ := @advance_next d (spot subject place)
            (spot subject (place + 1)) marks found none start c rest hsuffix (hafter.trans hx) step
            hc (Nat.le_of_lt_succ hhead) (lanes.map Lane.thread)
          obtain ⟨marks'', hrest, hc''⟩ := @ih hlanes hne' marks'
            (found.push (Lane.thread ⟨start, rest⟩)) _ hc' hlonger hsuffix.length_le
          refine ⟨marks'', ?_, hc''⟩
          rw [List.map_cons, hadvance, hrest, List.filterMap_cons_some hn, List.map_cons]
          simp
        · have hn : Lane.next? subject.toList[place]? ⟨start, c :: rest⟩ = none := if_neg hx
          rw [List.map_cons, advance_missed hsuffix (by rw [hafter]; exact hx),
            List.filterMap_cons_none hn]
          exact ih hlanes hne' hc (fun b hb => hstep b (List.mem_cons_of_mem _ hb)) hle

/-! ## 5. The search -/

/-- The match of the text at a place. -/
def matchAt (d : List Char) (start : Nat) : Match := ⟨start, start + d.length, #[]⟩

/-- A new thread starts behind the others as long as there is no match. -/
theorem seeded_lanes {marks : Marks} {lanes : List Lane}
    (hc : Clear d marks d.length) {threads : Array Thread}
    (ht : threads.toList = lanes.map Lane.thread) :
    (seeded (plainProgram d) (spot subject place) ⟨marks, threads, none⟩).toList =
      (lanes ++ [(⟨place, d⟩ : Lane)]).map Lane.thread := by
  obtain ⟨marks', hfollow, -⟩ := @follow_lane d (spot subject place) marks threads ⟨place, d⟩
    (List.suffix_refl d) d.length hc (Nat.le_refl _)
  show (follow (plainProgram d) (spot subject place) marks threads
    [Lane.thread ⟨place, d⟩]).2.toList = _
  rw [hfollow, Array.toList_push, ht, List.map_append]
  rfl

/-- Only the first thread can be at the end of the text. -/
theorem Lanes.full_or {s : List Char} {lanes : List Lane} (h : Lanes d s place lanes) :
    (∃ a as, lanes = a :: as ∧ a.rest = []) ∨ ∀ a ∈ lanes, a.rest ≠ [] := by
  cases lanes with
  | nil => exact Or.inr fun a ha => (List.not_mem_nil ha).elim
  | cons a as =>
      by_cases ha : a.rest = []
      · exact Or.inl ⟨a, as, rfl, ha⟩
      · refine Or.inr (List.forall_mem_cons.2 ⟨ha, fun b hb hnil => ?_⟩)
        have := (List.pairwise_cons.1 h.ascending).1 b hb
        rw [hnil] at this
        exact Nat.not_lt_zero _ this

theorem scan_zero_none (p : Program) (marks : Marks) (threads : Array Thread) :
    scan p subject place ⟨marks, threads, none⟩ 0 =
      (advance p (spot subject place) (spot subject place) ⟨#[], #[], none⟩
        (seeded p (spot subject place) ⟨marks, threads, none⟩).toList).best := rfl

/-- With the first thread at the end of the text, the search is settled: its start is the first
    occurrence, whatever starts behind it. -/
theorem scan_full {marks : Marks} {threads : Array Thread} {a : Lane} {as : List Lane}
    (ht : (seeded (plainProgram d) (spot subject place) ⟨marks, threads, none⟩).toList =
      (a :: as).map Lane.thread) (hl : Lanes d subject.toList place (a :: as)) (ha : a.rest = [])
    (left : Nat) (more : List Nat) :
    scan (plainProgram d) subject place ⟨marks, threads, none⟩ left =
      (((a :: as).map Lane.start ++ more).find? (occursAt d subject.toList)).map (matchAt d) := by
  have hahead := hl.ahead a List.mem_cons_self
  rw [ha] at hahead
  obtain ⟨hocc, hstop⟩ := hahead.full
  have hfound : scan (plainProgram d) subject place ⟨marks, threads, none⟩ left =
      some ⟨a.start, place, #[]⟩ := by
    cases left with
    | zero =>
        rw [scan_zero_none, ht, List.map_cons, advance_full ha]
        rfl
    | succ left =>
        rw [scan_succ, ht, List.map_cons, advance_full ha, scan_settled]
        rfl
  rw [hfound, List.map_cons, List.cons_append, List.find?_cons, hocc, hstop]
  rfl

/-- At the end of the subject no thread goes on. -/
theorem filterMap_next_none (lanes : List Lane) : lanes.filterMap (Lane.next? none) = [] :=
  List.filterMap_eq_nil_iff.2 fun a _ => by
    cases hb : a.next? none with
    | none => rfl
    | some b =>
        obtain ⟨c, -, hc⟩ := Lane.next?_eq_some hb
        cases hc

/-- **The run from a place on finds the first occurrence** among those whose threads are under way
    and those that start at the place or behind it. The induction is on what is left of the
    subject. -/
theorem scan_lanes (left : Nat) {place : Nat} (hsize : place + left = subject.size)
    {marks : Marks} (hc : Clear d marks d.length) {threads : Array Thread} {lanes : List Lane}
    (ht : threads.toList = lanes.map Lane.thread) (hl : Lanes d subject.toList place lanes)
    (hlt : ∀ a ∈ lanes, a.rest.length < d.length) :
    scan (plainProgram d) subject place ⟨marks, threads, none⟩ left =
      ((lanes.map Lane.start ++ List.range' place (left + 1)).find?
        (occursAt d subject.toList)).map (matchAt d) := by
  induction left generalizing place marks threads lanes with
  | zero =>
      have hseed := hl.seed hlt
      have hthreads := @seeded_lanes d subject place marks lanes hc threads ht
      have hstarts : lanes.map Lane.start ++ List.range' place (0 + 1) =
          (lanes ++ [(⟨place, d⟩ : Lane)]).map Lane.start ++ [] := by
        rw [List.map_append, List.append_nil]
        rfl
      have hnone : subject.toList[place]? = none := by
        rw [List.getElem?_eq_none_iff, Array.length_toList]
        omega
      have hafter : (spot subject place).after = none := Array.getElem?_toList.symm.trans hnone
      rw [hstarts]
      rcases hseed.full_or with ⟨a, as, hall, ha⟩ | hne
      · rw [hall] at hthreads hseed ⊢
        exact scan_full hthreads hseed ha _ _
      · rw [scan_zero_none, hthreads,
          advance_at_end hafter (fun a ha => (hseed.ahead a ha).suffix) hne,
          ← find?_next hseed.ahead hne, hnone, filterMap_next_none]
        rfl
  | succ left ih =>
      have hseed := hl.seed hlt
      have hthreads := @seeded_lanes d subject place marks lanes hc threads ht
      have hstarts : lanes.map Lane.start ++ List.range' place (left + 1 + 1) =
          (lanes ++ [(⟨place, d⟩ : Lane)]).map Lane.start ++ List.range' (place + 1) (left + 1) := by
        rw [List.range'_succ, List.map_append, List.append_assoc]
        rfl
      rw [hstarts]
      rcases hseed.full_or with ⟨a, as, hall, ha⟩ | hne
      · rw [hall] at hthreads hseed ⊢
        exact scan_full hthreads hseed ha _ _
      · have hpos : ∀ a ∈ lanes ++ [(⟨place, d⟩ : Lane)], 0 < a.rest.length := fun a ha =>
          List.length_pos_iff.2 (hne a ha)
        obtain ⟨marks', hadvance, hc'⟩ := @advance_lanes d subject place _ hseed hne _ #[] 0
          (clear_fresh d 0) hpos (Nat.zero_le _)
        rw [scan_succ, hthreads, hadvance, ← find?_next hseed.ahead hne]
        refine ih (by omega) hc' (by simp) hseed.next fun b hb => ?_
        obtain ⟨a, ha, hab⟩ := List.mem_filterMap.1 hb
        obtain ⟨c, rfl, -⟩ := Lane.next?_eq_some hab
        exact (hseed.ahead _ ha).suffix.length_le

/-- **A search with the program of a text finds the first occurrence** from the place on. -/
theorem search_plain (hle : place ≤ subject.size) :
    (plainProgram d).search subject place =
      ((List.range' place (subject.size - place + 1)).find?
        (occursAt d subject.toList)).map (matchAt d) := by
  unfold Program.search
  rw [if_neg (Nat.not_lt.2 hle)]
  exact @scan_lanes d subject (subject.size - place) place (by omega) _ (clear_fresh d _) #[] []
    rfl ⟨by simp, List.Pairwise.nil⟩ (by simp)

end

end CallScript.Pattern
