import CallScript.Function.Pattern
import CallScript.Proofs.Pattern.Plain
import CallScript.Proofs.Pattern.Touching
import CallScript.Proofs.Value.Table

/-!
# Counting matches

A call that lists the matches of a pattern and a call that counts them go through the subject in
different ways: an empty match right behind another match is listed and not counted.

* `execute_withPattern`, `regSplit_execute`, `regReplace_execute`: what the calls give, if there is
  no fault in their pattern;
* `starProgram_search`: what the pattern `a*` finds, in every text;
* `size_regMatchAll_eq_regCount_iff`: when listing and counting agree, and
  `regMatchAll_ne_regCount`, the smallest case in which they do not.
-/

namespace CallScript.Function

open Pattern (Match Subject Thread Spot Front Marks spot follow advance seeded scan)

variable {args : List Value} {p : Pattern}

/-! ## 1. Results of the calls -/

/-- A text that compiles stands for what it compiles to. -/
theorem patternOf_of_compile {source : String} (h : Pattern.compile source {} = .ok p) :
    patternOf (.string source) = .ok p := by
  show compileText source {} = _
  unfold compileText
  rw [h]

/-- What a call computes from its pattern, if there is no fault in it. -/
theorem withPattern_of_patternOf (compute : Pattern → Subject → Value)
    (hp : patternOf (arg args 0) = .ok p) :
    withPattern compute args = .ok (compute p (subjectOf args 1)) := by
  unfold withPattern
  rw [hp]
  rfl

/-- **A function on a pattern and a subject gives what it computes from them.** -/
theorem execute_withPattern (compute : Pattern → Subject → Value)
    (hp : patternOf (arg args 0) = .ok p) {d : Description}
    {check : List Value → Except Fault Unit}
    {replace : List Node → Place → Except Fault (Option Node)} (place : Place) (w : World) :
    (ofPure d (withPattern compute) check replace).execute args place w =
      (.ok (compute p (subjectOf args 1)), w) := by
  show (raiseAt place (withPattern compute args), w) = _
  rw [withPattern_of_patternOf compute hp]
  rfl

/-- The matches as a value: an array with one element for each. -/
theorem everyMatch_eq (p : Pattern) {subject : Subject} (h : subject.size + 1 < 2 ^ 63) :
    ∃ t, everyMatch p subject = .array t ∧ t.size = (p.program.findTouching subject).length := by
  have hle := Pattern.Program.length_findTouchingFrom_le p.program subject 0
  have hlength : ((p.program.findTouching subject).map fun m =>
      Value.array (matchTable p subject m)).length < 2 ^ 63 := by
    rw [List.length_map]
    exact Nat.lt_of_le_of_lt hle h
  refine ⟨_, rfl, ?_⟩
  rw [Table.size_ofList hlength, List.length_map]

theorem regMatchAll_execute (hp : patternOf (arg args 0) = .ok p)
    (hsize : (subjectOf args 1).size + 1 < 2 ^ 63) (place : Place) (w : World) :
    ∃ t, regMatchAll.execute args place w = (.ok (.array t), w) ∧
      t.size = (p.program.findTouching (subjectOf args 1)).length := by
  obtain ⟨t, ht, hmatches⟩ := everyMatch_eq p hsize
  refine ⟨t, ?_, hmatches⟩
  rw [← ht]
  exact execute_withPattern everyMatch hp place w

theorem regCount_execute (hp : patternOf (arg args 0) = .ok p) (place : Place) (w : World) :
    regCount.execute args place w =
      (.ok (.integer (Int64.ofNat (p.program.findAll (subjectOf args 1)).length)), w) :=
  execute_withPattern _ hp place w

/-- The limit of a split stands behind the subject, if there is one. -/
theorem getElem?_limit (pattern v : Value) (limit : Option Value) :
    (pattern :: v :: limit.toList)[2]? = limit := by
  cases limit with
  | none => rfl
  | some l => rfl

theorem regSplit_execute {pattern : Value} (hp : patternOf pattern = .ok p) {limit : Option Value}
    {cuts : Option Nat} (hc : cutsFor limit = .ok cuts) (v : Value) (place : Place) (w : World) :
    regSplit.execute (pattern :: v :: limit.toList) place w =
      (.ok (textsValue (splitAtMatches p cuts v.render.toList.toArray)), w) := by
  show (raiseAt place (do
      let p ← patternOf pattern
      let cuts ← cutsFor (pattern :: v :: limit.toList)[2]?
      pure (textsValue (splitAtMatches p cuts v.render.toList.toArray))), w) = _
  rw [hp, getElem?_limit, hc]
  rfl

theorem regReplace_execute {pattern : Value} (hp : patternOf pattern = .ok p) {text : Value}
    {r : Pattern.Replacement} (hr : replacementOf text.render p = .ok r) (v : Value)
    (place : Place) (w : World) :
    regReplace.execute [pattern, text, v] place w =
      (.ok (textValue (r.replaceAll p v.render.toList.toArray)), w) := by
  show (raiseAt place (do
      let p ← patternOf pattern
      let r ← replacementOf text.render p
      pure (textValue (r.replaceAll p v.render.toList.toArray))), w) = _
  rw [hp]
  simp only [bind, Except.bind, hr]
  rfl

/-! ## 2. Any number of `a`

The pattern `a*` is the smallest one with empty matches. In the text `a` its first match ends where
the text ends, and it finds the empty text there. -/

/-- The program of `a*`. -/
def starProgram : Pattern.Program := ⟨#[.accept, .fork [2, 0], .char 'a' 1], 1, 0⟩

theorem parse_star : Pattern.Expr.parse {} (Pattern.expandQuotes "a*".toList) =
    .ok (.repetition (.char 'a') 0 none true, Pattern.Groups.empty) := by
  show Pattern.Reading.readAll ⟨Pattern.plainMode, [], [], [], Pattern.Groups.empty⟩ ['a', '*'] = _
  rw [Pattern.Reading.readAll_char rfl (by decide), Pattern.Reading.readAll_cons rfl]
  exact Pattern.Reading.readAll_nil rfl

theorem patternOf_star : ∃ p, patternOf (.string "a*") = .ok p ∧ p.program = starProgram := by
  refine ⟨⟨"a*", {}, starProgram, Pattern.Groups.empty.restrict []⟩, ?_, rfl⟩
  show compileText "a*" ⟨false, false, false⟩ = _
  unfold compileText Pattern.compile
  rw [parse_star]
  rfl

/-- The threads that are left where a match of `a*` may go on: the one that takes a letter, and the one
    that ends. -/
def starThreads (start : Nat) : Array Thread := #[⟨2, start, #[]⟩, ⟨0, start, #[]⟩]

theorem follow_star (here : Spot) (start : Nat) :
    follow starProgram here starProgram.fresh #[] [⟨1, start, #[]⟩] =
      (#[true, true, true], starThreads start) := by
  simp [starProgram, starThreads, Pattern.Program.fresh, follow, Thread.goto, Thread.gotoAll]
  rfl

/-- Where the letter comes, a match ends and may go on. -/
theorem advance_star_letter {here : Spot} (h : here.after = some 'a')
    (there : Spot) (start : Nat) (best : Option Match) :
    advance starProgram here there ⟨starProgram.fresh, #[], best⟩
        [⟨2, start, #[]⟩, ⟨0, start, #[]⟩] =
      ⟨#[true, true, true], starThreads start, some ⟨start, here.position, #[]⟩⟩ := by
  have hletter : starProgram.steps[2]? = some (.char 'a' 1) := rfl
  have hend : starProgram.steps[0]? = some .accept := rfl
  have hgo : Thread.goto ⟨2, start, #[]⟩ 1 = ⟨1, start, #[]⟩ := rfl
  simp [advance, Pattern.Step.take?, hletter, hend, hgo, h, follow_star]

/-- Where it does not, the match ends for good. -/
theorem advance_star_other {here : Spot} (h : here.after ≠ some 'a')
    (there : Spot) (start : Nat) (marks : Marks) (best : Option Match) :
    advance starProgram here there ⟨marks, #[], best⟩
        [⟨2, start, #[]⟩, ⟨0, start, #[]⟩] =
      ⟨marks, #[], some ⟨start, here.position, #[]⟩⟩ := by
  have hletter : starProgram.steps[2]? = some (.char 'a' 1) := rfl
  have hend : starProgram.steps[0]? = some .accept := rfl
  cases hafter : here.after with
  | none => simp [advance, hletter, hend, hafter]
  | some c =>
      have hc : c ≠ 'a' := fun hc => h (hc ▸ hafter)
      simp [advance, Pattern.Step.take?, hletter, hend, hafter, hc]

/-- How many of the letter stand behind a place. -/
def lettersBehind (subject : Subject) (place : Nat) : Nat :=
  ((subject.toList.drop place).takeWhile (· = 'a')).length

theorem lettersBehind_of_letter {subject : Subject} {place : Nat} (h : subject[place]? = some 'a') :
    lettersBehind subject place = lettersBehind subject (place + 1) + 1 := by
  obtain ⟨hlt, hc⟩ := Array.getElem?_eq_some_iff.1 h
  unfold lettersBehind
  rw [List.drop_eq_getElem_cons (by simpa using hlt)]
  simp [hc]

theorem lettersBehind_of_other {subject : Subject} {place : Nat} (h : subject[place]? ≠ some 'a') :
    lettersBehind subject place = 0 := by
  unfold lettersBehind
  by_cases hlt : place < subject.size
  · have hc : subject[place] ≠ 'a' := fun hc => h (by simp [hlt, hc])
    rw [List.drop_eq_getElem_cons (by simpa using hlt)]
    simp [hc]
  · rw [List.drop_eq_nil_of_le (by simpa using hlt)]
    rfl

/-- A match that may go on goes on as long as the letter comes. -/
theorem scan_star {subject : Subject} {start place left : Nat} {f : Front}
    (hf : seeded starProgram (spot subject place) f = starThreads start)
    (hleft : place + left = subject.size) :
    scan starProgram subject place f left =
      some ⟨start, place + lettersBehind subject place, #[]⟩ := by
  have hthreads : (starThreads start).toList = [⟨2, start, #[]⟩, ⟨0, start, #[]⟩] := rfl
  induction left generalizing place f with
  | zero =>
      have hnone : subject[place]? ≠ some 'a' := by simp [← hleft]
      rw [scan, hf, hthreads, advance_star_other hnone, lettersBehind_of_other hnone]
      rfl
  | succ left ih =>
      rw [Pattern.scan_succ, hf, hthreads]
      by_cases h : subject[place]? = some 'a'
      · rw [advance_star_letter h, @ih (place + 1) ⟨_, _, _⟩ rfl (by omega),
          lettersBehind_of_letter h, Nat.add_assoc, Nat.add_comm 1]
      · rw [advance_star_other h, Pattern.scan_settled, lettersBehind_of_other h]
        rfl

/-- **The pattern `a*` finds the letters at the place where the search begins**, or the empty text if
    there is none. -/
theorem starProgram_search {subject : Subject} {place : Nat} (h : place ≤ subject.size) :
    starProgram.search subject place =
      some ⟨place, place + lettersBehind subject place, #[]⟩ := by
  have hseeded : seeded starProgram (spot subject place)
      ⟨starProgram.fresh, #[], none⟩ = starThreads place :=
    congrArg Prod.snd (follow_star _ place)
  unfold Pattern.Program.search
  rw [if_neg (Nat.not_lt.2 h)]
  exact scan_star hseeded (by omega)

theorem starProgram_findTouching :
    starProgram.findTouching #['a'] = [⟨0, 1, #[]⟩, ⟨1, 1, #[]⟩] := by
  have hfirst : starProgram.search #['a'] 0 = some ⟨0, 1, #[]⟩ := starProgram_search (by decide)
  have hend : starProgram.search #['a'] 1 = some ⟨1, 1, #[]⟩ := starProgram_search (by decide)
  have hlast : starProgram.search #['a'] 2 = none := rfl
  unfold Pattern.Program.findTouching
  rw [Pattern.Program.findTouchingFrom_some hfirst,
    show Pattern.Program.resume ⟨0, 1, #[]⟩ = 1 from rfl,
    Pattern.Program.findTouchingFrom_some hend,
    show Pattern.Program.resume ⟨1, 1, #[]⟩ = 2 from rfl,
    Pattern.Program.findTouchingFrom_none hlast]

theorem starProgram_findAll : starProgram.findAll #['a'] = [⟨0, 1, #[]⟩] := by
  have hfirst : starProgram.search #['a'] 0 = some ⟨0, 1, #[]⟩ := starProgram_search (by decide)
  have hend : starProgram.search #['a'] 1 = some ⟨1, 1, #[]⟩ := starProgram_search (by decide)
  have hlast : starProgram.search #['a'] 2 = none := rfl
  have hnext := (Pattern.Program.nextMatch?_of_empty hend ⟨rfl, rfl⟩).trans hlast
  unfold Pattern.Program.findAll
  rw [hfirst]
  dsimp only
  rw [Pattern.Program.findBehind_none hnext]

/-! ## 3. Numbers of matches -/

/-- **The matches are as many as are counted exactly when no match is touched** by an empty one, for
    every pattern and every subject: there are as many more as matches are touched. -/
theorem size_regMatchAll_eq_regCount_iff (hp : patternOf (arg args 0) = .ok p)
    (hsize : (subjectOf args 1).size + 1 < 2 ^ 63) (place : Place) (w : World) :
    ∃ t n, regMatchAll.execute args place w = (.ok (.array t), w) ∧
      regCount.execute args place w = (.ok (.integer n), w) ∧
      (t.size : Int) = n.toInt + ((p.program.findAll (subjectOf args 1)).filterMap
        (p.program.touching? (subjectOf args 1))).length ∧
      ((t.size : Int) = n.toInt ↔ ∀ m ∈ p.program.findAll (subjectOf args 1),
        p.program.touching? (subjectOf args 1) m = none) := by
  obtain ⟨t, hall, hmatches⟩ := regMatchAll_execute hp hsize place w
  have hsum := Pattern.Program.length_findTouching p.program (subjectOf args 1)
  have hle : (p.program.findTouching (subjectOf args 1)).length ≤ (subjectOf args 1).size + 1 :=
    Pattern.Program.length_findTouchingFrom_le p.program _ 0
  have hn : (Int64.ofNat (p.program.findAll (subjectOf args 1)).length).toInt =
      (p.program.findAll (subjectOf args 1)).length := Int64.toInt_ofNat_of_lt (by omega)
  refine ⟨t, _, hall, regCount_execute hp place w, ?_, ?_⟩
  · rw [hn, hmatches, hsum]
    rfl
  · rw [hn, hmatches, ← Pattern.Program.length_findTouching_eq_iff]
    exact Int.ofNat_inj

theorem size_regMatchAll_eq_regCount_iff_star :
    ∃ p t n, patternOf (.string "a*") = .ok p ∧
      regMatchAll.execute [.string "a*", .string "a"] default (.fresh Environment.empty) =
        (.ok (.array t), .fresh Environment.empty) ∧
      regCount.execute [.string "a*", .string "a"] default (.fresh Environment.empty) =
        (.ok (.integer n), .fresh Environment.empty) ∧
      ((t.size : Int) = n.toInt ↔
        ∀ m ∈ p.program.findAll #['a'], p.program.touching? #['a'] m = none) := by
  obtain ⟨p, hp, -⟩ := patternOf_star
  obtain ⟨t, n, hall, hcount, -, hiff⟩ :=
    @size_regMatchAll_eq_regCount_iff [.string "a*", .string "a"] p hp (by decide) default
      (.fresh Environment.empty)
  exact ⟨p, t, n, hp, hall, hcount, hiff⟩

/-- **For `a*` in `a` two matches are listed and one is counted**: the empty match at the end of the
    text touches the letter. -/
theorem regMatchAll_ne_regCount :
    ∃ t n, regMatchAll.execute [.string "a*", .string "a"] default (.fresh Environment.empty) =
        (.ok (.array t), .fresh Environment.empty) ∧
      regCount.execute [.string "a*", .string "a"] default (.fresh Environment.empty) =
        (.ok (.integer n), .fresh Environment.empty) ∧
      t.size = 2 ∧ n = 1 ∧ (t.size : Int) ≠ n.toInt := by
  obtain ⟨p, hp, hprogram⟩ := patternOf_star
  obtain ⟨t, hall, hsize⟩ :=
    @regMatchAll_execute [.string "a*", .string "a"] p hp (by decide) default
      (.fresh Environment.empty)
  have hcount := @regCount_execute [.string "a*", .string "a"] p hp default
    (.fresh Environment.empty)
  have hsubject : subjectOf [.string "a*", .string "a"] 1 = #['a'] := rfl
  rw [hprogram, hsubject, starProgram_findTouching] at hsize
  rw [hprogram, hsubject, starProgram_findAll] at hcount
  refine ⟨t, 1, hall, hcount, hsize, rfl, ?_⟩
  rw [hsize]
  decide

end CallScript.Function
