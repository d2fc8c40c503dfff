import CallScript.Proofs.Pattern.Lockstep

/-!
# Searches that begin later

A search whose match begins at a later place finds the same match when it begins there
(`search_of_le`). The threads that started in front of that place keep others from the steps that
they enter, so that has to be shown to make no difference:

* the steps that leading threads have entered are closed under going on (`Front.Explored`), and a
  thread that takes a character there only comes to where a leading thread comes as well;
* so a search with leading threads, none of which gives a match, is the search without them, but for
  threads at steps that the leading ones have entered (`Front.Behind`), and those give no match
  either;
* if a leading thread gives a match, the search finds one that begins where they started
  (`Front.AllFrom`).
-/

namespace CallScript.Pattern

variable {p : Program} {here there : Spot} {f g lead : Front}

/-! ## 1. Closed fronts -/

/-- From the steps that are entered, one comes only to steps that are entered or on the stack, and
    at each of them at which threads rest there is one. -/
structure Front.Explored (p : Program) (here : Spot) (f : Front) (stack : List Thread) : Prop where
  nexts : ∀ k, entered f.marks k = true → ∀ n ∈ p.nexts here k,
    entered f.marks n = true ∨ ∃ t ∈ stack, t.step = n
  rests : ∀ k, entered f.marks k = true → p.rests k = true → ∃ t ∈ f.threads, t.step = k

/-- A step counts as entered after the threads came to the spot if it did before, or if one of them
    is at the step. -/
theorem entered_spread {k : Nat} {stack : List Thread}
    (h : entered f.marks k = true ∨ ∃ t ∈ stack, t.step = k) :
    entered (f.spread p here stack).marks k = true := by
  induction f, stack using Front.spread_induction p here with
  | nil f =>
      rw [spread_nil]
      rcases h with h | ⟨t, ht, -⟩
      · exact h
      · exact absurd ht List.not_mem_nil
  | skip f t stack ht ih =>
      rw [spread_entered ht]
      refine ih ?_
      rcases h with h | ⟨u, hu, rfl⟩
      · exact Or.inl h
      · rcases List.mem_cons.1 hu with rfl | hu
        · exact Or.inl ht
        · exact Or.inr ⟨u, hu, rfl⟩
  | visit f t stack ht ih =>
      rw [spread_open ht]
      have hself : entered (f.visit p t).marks t.step = true := by
        show entered (enter f.marks t.step) t.step = true
        rw [entered_enter, decide_eq_true rfl, Bool.true_or]
      have hkept : ∀ j, entered f.marks j = true → entered (f.visit p t).marks j = true := by
        intro j hj
        show entered (enter f.marks t.step) j = true
        rw [entered_enter, hj, Bool.or_true]
      refine ih ?_
      rcases h with h | ⟨u, hu, rfl⟩
      · exact Or.inl (hkept k h)
      · rcases List.mem_cons.1 hu with rfl | hu
        · exact Or.inl hself
        · exact Or.inr ⟨u, List.mem_append_right _ hu, rfl⟩

/-- A thread that enters its step leaves the front explored, for it goes on at the steps behind. -/
theorem Front.Explored.visit {t : Thread} {stack : List Thread}
    (h : f.Explored p here (t :: stack)) :
    (f.visit p t).Explored p here (p.goOn here t ++ stack) := by
  have hmarks : ∀ j, entered (f.visit p t).marks j = true ↔
      t.step = j ∨ entered f.marks j = true := by
    intro j
    show entered (enter f.marks t.step) j = true ↔ _
    rw [entered_enter, Bool.or_eq_true, decide_eq_true_eq]
  have hthreads : ∀ u ∈ f.threads, u ∈ (f.visit p t).threads := by
    intro u hu
    show u ∈ if p.rests t.step then f.threads.push t else f.threads
    split
    · exact Array.mem_push.2 (Or.inl hu)
    · exact hu
  refine ⟨fun k hk n hn => ?_, fun k hk hrest => ?_⟩
  · rcases (hmarks k).1 hk with rfl | hk
    · obtain ⟨u, hu, hstep⟩ := Program.exists_mem_goOn hn
      exact Or.inr ⟨u, List.mem_append_left _ hu, hstep⟩
    · rcases h.nexts k hk n hn with hn | ⟨u, hu, rfl⟩
      · exact Or.inl ((hmarks n).2 (Or.inr hn))
      · rcases List.mem_cons.1 hu with rfl | hu
        · exact Or.inl ((hmarks _).2 (Or.inl rfl))
        · exact Or.inr ⟨u, List.mem_append_right _ hu, rfl⟩
  · rcases (hmarks k).1 hk with rfl | hk
    · refine ⟨t, ?_, rfl⟩
      show t ∈ if p.rests t.step then f.threads.push t else f.threads
      rw [if_pos hrest]
      exact Array.mem_push_self
    · obtain ⟨u, hu, hstep⟩ := h.rests k hk hrest
      exact ⟨u, hthreads u hu, hstep⟩

/-- **When nothing is left on the stack, what was entered is closed.** -/
theorem Front.Explored.spread {stack : List Thread} (h : f.Explored p here stack) :
    (f.spread p here stack).Explored p here [] := by
  induction f, stack using Front.spread_induction p here with
  | nil f =>
      rw [spread_nil]
      exact h
  | skip f t stack ht ih =>
      rw [spread_entered ht]
      refine ih ⟨fun k hk n hn => ?_, h.rests⟩
      rcases h.nexts k hk n hn with hn | ⟨u, hu, rfl⟩
      · exact Or.inl hn
      · rcases List.mem_cons.1 hu with rfl | hu
        · exact Or.inl ht
        · exact Or.inr ⟨u, hu, rfl⟩
  | visit f t stack ht ih =>
      rw [spread_open ht]
      exact ih h.visit

/-- Where nothing is on the stack, threads may come. -/
theorem Front.Explored.push (h : f.Explored p here []) (stack : List Thread) :
    f.Explored p here stack := by
  refine ⟨fun k hk n hn => ?_, h.rests⟩
  rcases h.nexts k hk n hn with hn | ⟨u, hu, -⟩
  · exact Or.inl hn
  · exact absurd hu List.not_mem_nil

/-- Before a step is entered, only those count as entered that are not there. -/
theorem explored_fresh (p : Program) (here : Spot) (best : Option Match) :
    Front.Explored p here ⟨p.fresh, #[], best⟩ [] := by
  have hmissing : ∀ k, entered p.fresh k = true → p.steps[k]? = none := by
    intro k hk
    rw [Array.getElem?_eq_none_iff]
    refine Nat.le_of_not_lt fun hlt => ?_
    rw [entered, Program.fresh, Array.getElem?_replicate, if_pos hlt] at hk
    cases hk
  refine ⟨fun k hk n hn => ?_, fun k hk hrest => ?_⟩
  · rw [Program.nexts, hmissing k hk] at hn
    exact absurd hn List.not_mem_nil
  · rw [Program.rests, hmissing k hk] at hrest
    cases hrest

/-! ## 2. Threads that give no match -/

/-- No thread is at the end of the program. -/
def NoneAccepts (p : Program) (ts : List Thread) : Prop :=
  ∀ t ∈ ts, p.steps[t.step]? ≠ some .accept

/-- A thread comes to the step behind the character that it takes. What was entered stays so. -/
theorem entered_move {t : Thread} {k : Nat}
    (h : entered f.marks k = true ∨ p.taken? here t.step = some k) :
    entered (f.move p here there t).marks k = true := by
  unfold Front.move
  cases hn : p.taken? here t.step with
  | none =>
      rcases h with h | h
      · exact h
      · rw [hn] at h
        cases h
  | some next =>
      rcases h with h | h
      · exact entered_spread (Or.inl h)
      · rw [hn] at h
        cases h
        exact entered_spread (Or.inr ⟨t.goto k, List.mem_singleton_self _, rfl⟩)

theorem Front.Explored.move (h : f.Explored p there []) (t : Thread) :
    (f.move p here there t).Explored p there [] := by
  unfold Front.move
  cases p.taken? here t.step with
  | none => exact h
  | some next => exact (h.push [t.goto next]).spread

section

variable {ts us : List Thread}

/-- Threads behind those that give no match go on where these left. -/
theorem NoneAccepts.advance_append (h : NoneAccepts p ts) (f : Front) (us : List Thread) :
    advance p here there f (ts ++ us) = advance p here there (advance p here there f ts) us := by
  induction ts generalizing f with
  | nil => rw [advance_nil, List.nil_append]
  | cons t ts ih =>
      obtain ⟨ht, hts⟩ := List.forall_mem_cons.1 h
      rw [List.cons_append, advance_move ht, advance_move ht, ih hts]

/-- Threads that give no match leave the best one as it is. -/
theorem NoneAccepts.best (h : NoneAccepts p ts) (f : Front) :
    (advance p here there f ts).best = f.best := by
  induction ts generalizing f with
  | nil => rw [advance_nil]
  | cons t ts ih =>
      obtain ⟨ht, hts⟩ := List.forall_mem_cons.1 h
      rw [advance_move ht, ih hts]
      unfold Front.move
      cases p.taken? here t.step with
      | none => rfl
      | some next => rfl

/-- The threads come to the steps behind the character that they take. -/
theorem NoneAccepts.entered (h : NoneAccepts p ts) {k : Nat}
    (hk : entered f.marks k = true ∨ ∃ t ∈ ts, p.taken? here t.step = some k) :
    entered (advance p here there f ts).marks k = true := by
  induction ts generalizing f with
  | nil =>
      rw [advance_nil]
      rcases hk with hk | ⟨t, ht, -⟩
      · exact hk
      · exact absurd ht List.not_mem_nil
  | cons t ts ih =>
      obtain ⟨ht, hts⟩ := List.forall_mem_cons.1 h
      rw [advance_move ht]
      refine ih hts ?_
      rcases hk with hk | ⟨u, hu, htaken⟩
      · exact Or.inl (entered_move (Or.inl hk))
      · rcases List.mem_cons.1 hu with rfl | hu
        · exact Or.inl (entered_move (Or.inr htaken))
        · exact Or.inr ⟨u, hu, htaken⟩

theorem NoneAccepts.explored (h : NoneAccepts p ts) (hf : f.Explored p there []) :
    (advance p here there f ts).Explored p there [] := by
  induction ts generalizing f with
  | nil =>
      rw [advance_nil]
      exact hf
  | cons t ts ih =>
      obtain ⟨ht, hts⟩ := List.forall_mem_cons.1 h
      rw [advance_move ht]
      exact ih hts (hf.move t)

/-- Where all steps count as entered, threads that give no match come to nothing. -/
theorem NoneAccepts.advance_empty (h : NoneAccepts p ts) (best : Option Match) :
    advance p here there ⟨#[], #[], best⟩ ts = ⟨#[], #[], best⟩ := by
  induction ts with
  | nil => rw [advance_nil]
  | cons t ts ih =>
      obtain ⟨ht, hts⟩ := List.forall_mem_cons.1 h
      have hmove : Front.move p here there ⟨#[], #[], best⟩ t = ⟨#[], #[], best⟩ := by
        unfold Front.move
        cases p.taken? here t.step with
        | none => rfl
        | some next => exact (spread_entered (entered_empty next)).trans (spread_nil p there _)
      rw [advance_move ht, hmove, ih hts]

end

/-! ## 3. Threads that started at one place -/

/-- There is a match, and it began at the place, as did all threads that may still replace it. -/
structure Front.AllFrom (q : Nat) (f : Front) : Prop where
  best : ∃ m, f.best = some m ∧ m.start = q
  threads : ∀ t ∈ f.threads, t.start = q

section

variable {q : Nat} {ts : List Thread}

theorem start_spread {stack : List Thread} (hf : ∀ t ∈ f.threads, t.start = q)
    (hs : ∀ t ∈ stack, t.start = q) : ∀ t ∈ (f.spread p here stack).threads, t.start = q :=
  follow_start p here (· = q) f.marks f.threads stack hf hs

theorem start_move {t : Thread} (hf : ∀ u ∈ f.threads, u.start = q) (ht : t.start = q) :
    ∀ u ∈ (f.move p here there t).threads, u.start = q := by
  unfold Front.move
  cases p.taken? here t.step with
  | none => exact hf
  | some next => exact start_spread hf (List.forall_mem_singleton.2 ht)

theorem NoneAccepts.start (h : NoneAccepts p ts) (hf : ∀ t ∈ f.threads, t.start = q)
    (hts : ∀ t ∈ ts, t.start = q) :
    ∀ t ∈ (advance p here there f ts).threads, t.start = q := by
  induction ts generalizing f with
  | nil =>
      rw [advance_nil]
      exact hf
  | cons t ts ih =>
      obtain ⟨ht, hrest⟩ := List.forall_mem_cons.1 h
      obtain ⟨hstart, hstarts⟩ := List.forall_mem_cons.1 hts
      rw [advance_move ht]
      exact ih hrest (start_move hf hstart) hstarts

/-- **If one of the threads gives a match, it began where they started**, and what comes behind them
    is cut off. -/
theorem allFrom_advance (here there : Spot) (hts : ∀ t ∈ ts, t.start = q)
    (ha : ¬ NoneAccepts p ts) (hf : ∀ t ∈ f.threads, t.start = q) (us : List Thread) :
    (advance p here there f (ts ++ us)).AllFrom q := by
  induction ts generalizing f with
  | nil => exact absurd (fun t ht => absurd ht List.not_mem_nil) ha
  | cons t ts ih =>
      obtain ⟨hstart, hstarts⟩ := List.forall_mem_cons.1 hts
      rw [List.cons_append]
      by_cases ht : p.steps[t.step]? = some .accept
      · rw [advance_accept ht]
        exact ⟨⟨_, rfl, hstart⟩, hf⟩
      · rw [advance_move ht]
        refine ih hstarts (fun hrest => ha ?_) (start_move hf hstart)
        exact List.forall_mem_cons.2 ⟨ht, hrest⟩

/-- Where a match began at the place and all threads started there, any match will begin there. -/
theorem Front.AllFrom.advance (h : f.AllFrom q) (hts : ∀ t ∈ ts, t.start = q) :
    (advance p here there f ts).AllFrom q := by
  by_cases ha : NoneAccepts p ts
  · refine ⟨?_, ha.start h.threads hts⟩
    rw [ha.best]
    exact h.best
  · rw [← List.append_nil ts]
    exact allFrom_advance here there hts ha h.threads []

theorem Front.AllFrom.seeded (h : f.AllFrom q) : ∀ t ∈ (seeded p here f).toList, t.start = q := by
  obtain ⟨marks, threads, best⟩ := f
  obtain ⟨m, rfl, -⟩ := h.best
  intro t ht
  exact h.threads t (Array.mem_toList_iff.1 ht)

theorem Front.AllFrom.scan {subject : Subject} {place : Nat} (h : f.AllFrom q) (left : Nat) :
    ∃ m, scan p subject place f left = some m ∧ m.start = q := by
  induction left generalizing place f with
  | zero =>
      have hlast : Front.AllFrom q ⟨#[], #[], f.best⟩ := ⟨h.best, by simp⟩
      exact (hlast.advance h.seeded).best
  | succ left ih =>
      have hnext : Front.AllFrom q ⟨p.fresh, #[], f.best⟩ := ⟨h.best, by simp⟩
      rw [scan_succ]
      exact ih (hnext.advance h.seeded)

end

/-! ## 4. Behind leading threads -/

/-- Whoever leaves an entered step without taking a character comes to a step that is entered as
    well. -/
def Closed (p : Program) (here : Spot) (marks : Marks) : Prop :=
  ∀ k, entered marks k = true → ∀ n ∈ p.nexts here k, entered marks n = true

theorem Front.Explored.closed (h : f.Explored p here []) : Closed p here f.marks := by
  intro k hk n hn
  rcases h.nexts k hk n hn with hn | ⟨t, ht, -⟩
  · exact hn
  · exact absurd ht List.not_mem_nil

/-- The threads that are not at steps that the leading ones have entered. -/
def Front.spared (lead : Front) (ts : List Thread) : List Thread :=
  ts.filter fun t => !entered lead.marks t.step

/-- **The first front is the second one behind leading threads**: what these have entered counts as
    entered, and threads there are missing. -/
structure Front.Behind (lead f g : Front) : Prop where
  marks : ∀ k, entered f.marks k = (entered g.marks k || entered lead.marks k)
  threads : f.threads.toList = lead.threads.toList ++ lead.spared g.threads.toList
  best : f.best = g.best

namespace Front.Behind

/-- A thread that comes to a step of the leading ones is missed by nobody. -/
theorem visit_of_entered (h : Behind lead f g) {t : Thread}
    (ht : entered lead.marks t.step = true) : Behind lead f (g.visit p t) := by
  refine ⟨fun k => ?_, ?_, h.best⟩
  · show entered f.marks k = (entered (enter g.marks t.step) k || entered lead.marks k)
    rw [entered_enter, h.marks]
    by_cases hk : t.step = k
    · rw [← hk, ht, Bool.or_true, Bool.or_true]
    · rw [decide_eq_false hk, Bool.false_or]
  · rw [h.threads]
    show _ ++ lead.spared g.threads.toList = _ ++ lead.spared (ite _ _ _ : Array Thread).toList
    split
    · rw [Array.toList_push, Front.spared, Front.spared, List.filter_append,
        List.filter_cons_of_neg (by simp [ht]), List.filter_nil, List.append_nil]
    · rfl

/-- A thread that comes to another step is in both fronts. -/
theorem visit (h : Behind lead f g) {t : Thread} (ht : entered lead.marks t.step = false) :
    Behind lead (f.visit p t) (g.visit p t) := by
  refine ⟨fun k => ?_, ?_, h.best⟩
  · show entered (enter f.marks t.step) k =
      (entered (enter g.marks t.step) k || entered lead.marks k)
    rw [entered_enter, entered_enter, h.marks, Bool.or_assoc]
  · show (ite _ _ _ : Array Thread).toList = _ ++ lead.spared (ite _ _ _ : Array Thread).toList
    split
    · rw [Array.toList_push, Array.toList_push, h.threads, Front.spared, Front.spared,
        List.filter_append, List.filter_cons_of_pos (by simp [ht]), List.filter_nil,
        List.append_assoc]
    · exact h.threads

/-- **The threads of a stack come to a spot behind the leading ones as they do without them.** A
    thread that is dropped behind them only went to steps that they have entered. -/
theorem spread (hc : Closed p here lead.marks) (h : Behind lead f g) (stack : List Thread) :
    Behind lead (f.spread p here stack) (g.spread p here stack) := by
  induction g, stack using Front.spread_induction p here generalizing f with
  | nil g =>
      rw [spread_nil, spread_nil]
      exact h
  | skip g t stack ht ih =>
      have hf : entered f.marks t.step = true := by
        rw [h.marks, ht, Bool.true_or]
      rw [spread_entered hf, spread_entered ht]
      exact ih h
  | visit g t stack ht ih =>
      rw [spread_open ht]
      by_cases hlead : entered lead.marks t.step = true
      · have hentered : ∀ k, entered lead.marks k = true → entered f.marks k = true := by
          intro k hk
          rw [h.marks, hk, Bool.or_true]
        have hdropped : f.spread p here (p.goOn here t ++ stack) = f.spread p here stack :=
          spread_append_entered fun u hu =>
            hentered _ (hc _ hlead _ (Program.mem_goOn hu).1)
        rw [spread_entered (hentered _ hlead), ← hdropped]
        exact ih (h.visit_of_entered hlead)
      · have hlead : entered lead.marks t.step = false := Bool.eq_false_iff.2 hlead
        have hf : entered f.marks t.step = false := by
          rw [h.marks, ht, hlead, Bool.or_false]
        rw [spread_open hf]
        exact ih (h.visit hlead)

/-- The thread that starts at the place does so in both fronts. -/
theorem seeded (hc : Closed p here lead.marks) (h : Behind lead f g) :
    (seeded p here f).toList = lead.threads.toList ++ lead.spared (seeded p here g).toList := by
  obtain ⟨marks, threads, best⟩ := f
  obtain ⟨marks', threads', best'⟩ := g
  obtain rfl : best = best' := h.best
  cases best with
  | none => exact (h.spread hc _).threads
  | some m => exact h.threads

end Front.Behind

section

variable {next : Front}

/-- The leading threads give no match, and so do threads at their steps; and where those go behind
    the character, the leading ones go as well. -/
structure Passes (p : Program) (here : Spot) (lead next : Front) : Prop where
  silent : ∀ k, entered lead.marks k = true → p.steps[k]? ≠ some .accept
  taken : ∀ k n, entered lead.marks k = true → p.taken? here k = some n →
    entered next.marks n = true

/-- Threads that take a character or end the program rest. -/
theorem rests_of_taken? {k n : Nat} (h : p.taken? here k = some n) : p.rests k = true := by
  unfold Program.taken? at h
  obtain ⟨step, hs, hstep⟩ := Option.bind_eq_some_iff.1 h
  obtain ⟨c, -, hc⟩ := Option.bind_eq_some_iff.1 hstep
  unfold Program.rests
  rw [hs]
  cases step with
  | char | set | accept => rfl
  | look | fork | save => cases hc

theorem rests_of_accept {k : Nat} (h : p.steps[k]? = some .accept) : p.rests k = true := by
  unfold Program.rests
  rw [h]

theorem Front.Explored.passes (h : lead.Explored p here [])
    (ha : NoneAccepts p lead.threads.toList) (there : Spot) (f : Front) :
    Passes p here lead (Pattern.advance p here there f lead.threads.toList) := by
  refine ⟨fun k hk haccept => ?_, fun k n hk hn => ?_⟩
  · obtain ⟨t, ht, rfl⟩ := h.rests k hk (rests_of_accept haccept)
    exact ha t (Array.mem_toList_iff.2 ht) haccept
  · obtain ⟨t, ht, rfl⟩ := h.rests k hk (rests_of_taken? hn)
    exact ha.entered (Or.inr ⟨t, Array.mem_toList_iff.2 ht, hn⟩)

/-- **Threads are moved behind the leading ones as they are without them.** -/
theorem Front.Behind.advance (hc : Closed p there next.marks) (hp : Passes p here lead next)
    (h : Behind next f g) (ts : List Thread) :
    Behind next (Pattern.advance p here there f (lead.spared ts))
      (Pattern.advance p here there g ts) := by
  induction ts generalizing f g with
  | nil =>
      rw [Front.spared, List.filter_nil, advance_nil, advance_nil]
      exact h
  | cons t ts ih =>
      by_cases hlead : entered lead.marks t.step = true
      · have hskip : lead.spared (t :: ts) = lead.spared ts :=
          List.filter_cons_of_neg (by simp [hlead])
        rw [hskip, advance_move (hp.silent _ hlead)]
        refine ih ?_
        unfold Front.move
        cases hn : p.taken? here t.step with
        | none => exact h
        | some n =>
            have hf : entered f.marks n = true := by
              rw [h.marks, hp.taken _ n hlead hn, Bool.or_true]
            have hbehind := h.spread hc [t.goto n]
            rw [spread_entered hf, spread_nil] at hbehind
            exact hbehind
      · have hkeep : lead.spared (t :: ts) = t :: lead.spared ts :=
          List.filter_cons_of_pos (by simpa using hlead)
        rw [hkeep]
        by_cases ht : p.steps[t.step]? = some .accept
        · rw [advance_accept ht, advance_accept ht]
          exact ⟨h.marks, h.threads, rfl⟩
        · rw [advance_move ht, advance_move ht]
          refine ih ?_
          unfold Front.move
          cases p.taken? here t.step with
          | none => exact h
          | some n => exact h.spread hc _

end

/-! ## 5. The search -/

/-- The threads of the front started at the place, and what they have entered is closed. -/
structure Front.Leads (p : Program) (here : Spot) (q : Nat) (lead : Front) : Prop where
  explored : lead.Explored p here []
  start : ∀ t ∈ lead.threads.toList, t.start = q

section

variable {subject : Subject} {place q : Nat}

/-- Threads that give no match lead at the next place, where no other thread has come yet. -/
theorem NoneAccepts.behind_fresh {ts : List Thread} (h : NoneAccepts p ts) (best : Option Match) :
    Front.Behind (advance p here there ⟨p.fresh, #[], best⟩ ts)
      (advance p here there ⟨p.fresh, #[], best⟩ ts) ⟨p.fresh, #[], best⟩ := by
  refine ⟨fun k => ?_, (List.append_nil _).symm, h.best _⟩
  cases hk : Pattern.entered p.fresh k with
  | false => rw [Bool.false_or]
  | true => exact h.entered (Or.inl hk)

/-- **Leading threads lead on**: behind the next character there are leading threads again, unless
    the search finds a match of theirs. -/
theorem Front.Leads.next (h : lead.Leads p (spot subject place) q) (best : Option Match)
    (ts : List Thread) {left : Nat} {m : Match}
    (hm : scan p subject (place + 1) (advance p (spot subject place) (spot subject (place + 1))
      ⟨p.fresh, #[], best⟩ (lead.threads.toList ++ lead.spared ts)) left = some m)
    (hq : m.start ≠ q) :
    ∃ lead' : Front, lead'.Leads p (spot subject (place + 1)) q ∧
      lead'.Behind
        (advance p (spot subject place) (spot subject (place + 1)) ⟨p.fresh, #[], best⟩
          (lead.threads.toList ++ lead.spared ts))
        (advance p (spot subject place) (spot subject (place + 1)) ⟨p.fresh, #[], best⟩ ts) := by
  by_cases ha : NoneAccepts p lead.threads.toList
  · have hexplored : Front.Explored p (spot subject (place + 1)) (advance p (spot subject place)
        (spot subject (place + 1)) ⟨p.fresh, #[], best⟩ lead.threads.toList) [] :=
      ha.explored (explored_fresh p _ best)
    have hpasses := h.explored.passes ha (spot subject (place + 1)) ⟨p.fresh, #[], best⟩
    refine ⟨_, ⟨hexplored, fun t ht => ?_⟩, ?_⟩
    · exact ha.start (by simp) h.start t (Array.mem_toList_iff.1 ht)
    · rw [ha.advance_append]
      exact (ha.behind_fresh best).advance hexplored.closed hpasses ts
  · have hempty : ∀ t ∈ (⟨p.fresh, #[], best⟩ : Front).threads, t.start = q := by simp
    have hfrom := allFrom_advance (spot subject place) (spot subject (place + 1)) h.start ha hempty
      (lead.spared ts)
    obtain ⟨m', hm', hq'⟩ := @Front.AllFrom.scan _ _ _ subject (place + 1) hfrom left
    rw [hm'] at hm
    cases hm
    exact absurd hq' hq

/-- At the end of the subject, a match that is none of the leading threads' is found without
    them. -/
theorem Front.Leads.last (h : lead.Leads p here q) {best : Option Match} (ts : List Thread)
    {m : Match}
    (hm : (advance p here here ⟨#[], #[], best⟩
      (lead.threads.toList ++ lead.spared ts)).best = some m) (hq : m.start ≠ q) :
    (advance p here here ⟨#[], #[], best⟩ ts).best = some m := by
  by_cases ha : NoneAccepts p lead.threads.toList
  · have hpasses := h.explored.passes ha here ⟨#[], #[], best⟩
    have hclosed : Closed p here #[] := fun _ _ _ _ => rfl
    have hbehind : Front.Behind ⟨#[], #[], best⟩ ⟨#[], #[], best⟩ ⟨#[], #[], best⟩ :=
      ⟨fun _ => rfl, rfl, rfl⟩
    rw [ha.advance_empty] at hpasses
    rw [ha.advance_append, ha.advance_empty] at hm
    rw [← (hbehind.advance hclosed hpasses ts).best]
    exact hm
  · have hempty : ∀ t ∈ (⟨#[], #[], best⟩ : Front).threads, t.start = q := by simp
    have hfrom := allFrom_advance here here h.start ha hempty (lead.spared ts)
    obtain ⟨m', hm', hq'⟩ := hfrom.best
    rw [hm'] at hm
    cases hm
    exact absurd hq' hq

/-- **A search with leading threads that comes to a match of other threads** comes to the same match
    without them. The induction is on what is left of the subject. -/
theorem scan_behind (left : Nat) (hlead : lead.Leads p (spot subject place) q)
    (h : lead.Behind f g) {m : Match} (hm : scan p subject place f left = some m)
    (hq : m.start ≠ q) : scan p subject place g left = some m := by
  induction left generalizing place lead f g with
  | zero =>
      have hm : (advance p (spot subject place) (spot subject place) ⟨#[], #[], f.best⟩
        (seeded p (spot subject place) f).toList).best = some m := hm
      rw [h.seeded hlead.explored.closed] at hm
      show (advance p (spot subject place) (spot subject place) ⟨#[], #[], g.best⟩
        (seeded p (spot subject place) g).toList).best = some m
      rw [← h.best]
      exact hlead.last _ hm hq
  | succ left ih =>
      rw [scan_succ, h.seeded hlead.explored.closed] at hm
      rw [scan_succ, ← h.best]
      obtain ⟨lead', hlead', hbehind⟩ := hlead.next f.best _ hm hq
      exact ih hlead' hbehind hm

/-- The thread that starts where the search begins leads there. -/
theorem leads_seeded (p : Program) (here : Spot) :
    ∃ lead : Front, lead.Leads p here here.position ∧
      seeded p here ⟨p.fresh, #[], none⟩ = lead.threads := by
  have hfresh := explored_fresh p here none
  refine ⟨Front.spread p here ⟨p.fresh, #[], none⟩ [⟨p.start, here.position, p.blank⟩],
    ⟨(hfresh.push _).spread, fun t ht => ?_⟩, rfl⟩
  exact start_spread (by simp) (by simp) t (Array.mem_toList_iff.1 ht)

/-- **A search whose match begins later finds it from the next place on as well.** -/
theorem search_succ {m : Match} (h : p.search subject q = some m) (hq : q < m.start) :
    p.search subject (q + 1) = some m := by
  have hwithin := Program.search_within h
  simp only [Match.Within] at hwithin
  obtain ⟨left, hleft⟩ : ∃ left, subject.size - q = left + 1 :=
    Nat.exists_eq_succ_of_ne_zero (by omega)
  have hleft' : subject.size - (q + 1) = left := by omega
  obtain ⟨lead, hlead, hseeded⟩ := leads_seeded p (spot subject q)
  have hspared : lead.threads.toList ++ lead.spared [] = lead.threads.toList :=
    List.append_nil _
  unfold Program.search at h ⊢
  rw [if_neg (by omega), hleft, scan_succ, hseeded, ← hspared] at h
  rw [if_neg (by omega), hleft']
  have hne : m.start ≠ (spot subject q).position := Nat.ne_of_gt hq
  obtain ⟨lead', hlead', hbehind⟩ := hlead.next none [] h hne
  rw [advance_nil] at hbehind
  exact scan_behind left hlead' hbehind h hne

/-- **A search finds the same match wherever it begins**, as long as it begins no later than the
    match. -/
theorem search_of_le {m : Match} (h : p.search subject place = some m) (hle : place ≤ q)
    (hq : q ≤ m.start) : p.search subject q = some m := by
  induction q with
  | zero =>
      obtain rfl : place = 0 := Nat.le_zero.1 hle
      exact h
  | succ q ih =>
      rcases Nat.lt_or_eq_of_le hle with hlt | rfl
      · exact search_succ (ih (Nat.le_of_lt_succ hlt) (Nat.le_of_succ_le hq)) hq
      · exact h

end

end CallScript.Pattern
