import CallScript.Pattern.Replacement
import CallScript.Proofs.Pattern.PlainSearch

/-!
# Going through the matches of plain patterns

The matches of a plain pattern are the occurrences of its text that a pass over the subject comes to.
So cutting at the matches, and replacing them, is what the passes over plain text do.

* `findBehind_cases` describes the matches from a place on by the first of them;
* `piecesBetween_plain` and `replaceFrom_plain` follow it through the subject.
-/

namespace CallScript.Pattern

open Text (occursAt occursAt_iff occursAt_drop)

/-! ## 1. Places in the subject -/

/-- The characters between two places are those behind the first and in front of the second. -/
theorem slice_eq (subject : Subject) (start stop : Nat) :
    slice subject start stop = (subject.toList.drop start).take (stop - start) := by
  rw [slice, Array.toList_extract, List.extract_eq_take_drop]

/-- What is behind a place is what is between it and the end. -/
theorem slice_to_end (subject : Subject) (start : Nat) :
    slice subject start subject.size = subject.toList.drop start := by
  rw [slice_eq]
  exact List.take_of_length_le (by simp)

/-- What is behind a place goes on behind a later place. -/
theorem drop_eq_slice_append (subject : Subject) {start stop : Nat} (h : start ≤ stop) :
    subject.toList.drop start = slice subject start stop ++ subject.toList.drop stop := by
  rw [slice_eq]
  conv => lhs; rw [← List.take_append_drop (stop - start) (subject.toList.drop start)]
  rw [List.drop_drop, Nat.add_sub_cancel' h]

theorem length_slice {subject : Subject} {start stop : Nat} (h : stop ≤ subject.size) :
    (slice subject start stop).length = stop - start := by
  rw [slice_eq, List.length_take, List.length_drop, Array.length_toList]
  omega

section

variable {d : List Char} {subject : Subject}

/-- An occurrence is followed by what is behind it. -/
theorem drop_of_occursAt {start : Nat} (h : occursAt d subject.toList start = true) :
    subject.toList.drop start = d ++ subject.toList.drop (start + d.length) := by
  obtain ⟨t, ht⟩ := occursAt_iff.1 h
  rw [← List.drop_drop, ← ht, List.drop_left]

/-- An occurrence of a text that is not empty ends within the subject. -/
theorem stop_le_of_occursAt (hd : d ≠ []) {start : Nat}
    (h : occursAt d subject.toList start = true) : start + d.length ≤ subject.size := by
  have hlen := (occursAt_iff.1 h).length_le
  have hpos := List.length_pos_iff.2 hd
  have hsize : subject.toList.length = subject.size := Array.length_toList
  rw [List.length_drop] at hlen
  omega

/-- The text of a match is the text that was looked for. -/
theorem slice_of_occursAt {start : Nat} (h : occursAt d subject.toList start = true) :
    slice subject start (start + d.length) = d := by
  rw [slice_eq, drop_of_occursAt h, Nat.add_sub_cancel_left, List.take_left]

/-! ## 2. The first match -/

/-- A text that is not empty has no empty match. -/
theorem nextMatch?_plain (hd : d ≠ []) {place : Nat} (h : place ≤ subject.size) :
    (plainProgram d).nextMatch? subject place = (plainProgram d).search subject place := by
  unfold Program.nextMatch?
  rw [search_plain h]
  cases ((List.range' place (subject.size - place + 1)).find? (occursAt d subject.toList)) with
  | none => rfl
  | some start =>
      have hne : ¬ ((matchAt d start).start = (matchAt d start).stop ∧
          (matchAt d start).stop = place) := by
        rintro ⟨heq, -⟩
        have heq : start = start + d.length := heq
        have := List.length_pos_iff.2 hd
        omega
      exact if_neg hne

/-- **Behind a place, there is no occurrence and no match, or the first match is the first
    occurrence** and the others are behind it. -/
theorem findBehind_cases (hd : d ≠ []) {place : Nat} (h : place ≤ subject.size) :
    ((plainProgram d).findBehind subject place = [] ∧
      ∀ k < (subject.toList.drop place).length,
        occursAt d (subject.toList.drop place) k = false) ∨
    ∃ start, place ≤ start ∧ occursAt d subject.toList start = true ∧
      (∀ k < (slice subject place start).length,
        occursAt d (slice subject place start ++ subject.toList.drop start) k = false) ∧
      (plainProgram d).findBehind subject place =
        matchAt d start :: (plainProgram d).findBehind subject (start + d.length) := by
  cases hfind : (List.range' place (subject.size - place + 1)).find?
      (occursAt d subject.toList) with
  | none =>
      have hnext : (plainProgram d).nextMatch? subject place = none := by
        rw [nextMatch?_plain hd h, search_plain h, hfind]
        rfl
      refine Or.inl ⟨Program.findBehind_none hnext, fun k hk => ?_⟩
      rw [List.length_drop, Array.length_toList] at hk
      rw [List.find?_range'_eq_none] at hfind
      rw [occursAt_drop]
      simpa using hfind (place + k) (by omega) (by omega)
  | some start =>
      have hnext : (plainProgram d).nextMatch? subject place = some (matchAt d start) := by
        rw [nextMatch?_plain hd h, search_plain h, hfind]
        rfl
      rw [List.find?_range'_eq_some] at hfind
      obtain ⟨hocc, hmem, hfirst⟩ := hfind
      have hle : place ≤ start := (List.mem_range'_1.1 hmem).1
      refine Or.inr ⟨start, hle, hocc, fun k hk => ?_, Program.findBehind_some hnext⟩
      rw [length_slice (Nat.le_trans (Nat.le_add_right _ _) (stop_le_of_occursAt hd hocc))] at hk
      rw [← drop_eq_slice_append subject hle, occursAt_drop]
      simpa using hfirst (place + k) (by omega) (by omega)

/-- All matches are those from the beginning on. -/
theorem findAll_plain (hd : d ≠ []) (subject : Subject) :
    (plainProgram d).findAll subject = (plainProgram d).findBehind subject 0 := by
  have hnext := @nextMatch?_plain d subject hd 0 (Nat.zero_le _)
  rw [Program.findAll, ← hnext]
  cases h : (plainProgram d).nextMatch? subject 0 with
  | none => exact (Program.findBehind_none h).symm
  | some m => exact (Program.findBehind_some h).symm

/-- What is proved of each place from what is behind it holds from every place on. -/
theorem place_induction (subject : Subject) {P : Nat → Prop}
    (h : ∀ place, place ≤ subject.size →
      (∀ later, place < later → later ≤ subject.size → P later) → P place)
    {place : Nat} (hle : place ≤ subject.size) : P place := by
  induction hn : subject.size - place using Nat.strongRecOn generalizing place with
  | ind n ih =>
      refine h place hle fun later hlt hlater => ?_
      exact ih (subject.size - later) (by omega) hlater rfl

/-- No match of a text that is not empty ends at the beginning of the subject. -/
theorem stop_ne_zero (hd : d ≠ []) {place : Nat} (h : place ≤ subject.size) :
    ∀ m ∈ (plainProgram d).findBehind subject place, m.stop ≠ 0 := by
  refine place_induction subject (P := fun place =>
    ∀ m ∈ (plainProgram d).findBehind subject place, m.stop ≠ 0) (fun place h ih => ?_) h
  rcases findBehind_cases hd h with ⟨hnil, -⟩ | ⟨start, hle, hocc, -, hcons⟩
  · rw [hnil]
    exact fun m hm => (List.not_mem_nil hm).elim
  · have hpos := List.length_pos_iff.2 hd
    rw [hcons]
    refine List.forall_mem_cons.2 ⟨?_, ih _ (by omega) (stop_le_of_occursAt hd hocc)⟩
    show start + d.length ≠ 0
    omega

/-! ## 3. Replacing -/

/-- A number that goes on with digits stays within the limit. -/
theorem Segment.number_le {limit n : Nat} (h : n ≤ limit) (s : List Char) :
    (number limit n s).1 ≤ limit := by
  induction s generalizing n with
  | nil => exact h
  | cons c r ih =>
      rw [number]
      split
      · next hn =>
        rw [Bool.and_eq_true, decide_eq_true_eq] at hn
        exact ih hn.2
      · exact h

/-- What was read refers to groups up to the number, if anything was read. -/
def Segment.RefersWithin (count : Nat) (x : Except ReplacementError (List Segment)) : Prop :=
  ∀ segments, x = .ok segments → ∀ n, .group n ∈ segments → n ≤ count

theorem Segment.RefersWithin.consChar {count : Nat} {x : Except ReplacementError (List Segment)}
    (h : RefersWithin count x) (c : Char) : RefersWithin count (x.map (Segment.consChar c)) := by
  intro segments hx n hn
  cases x with
  | error e => cases hx
  | ok rest =>
      cases hx
      refine h rest rfl n ?_
      unfold Segment.consChar at hn
      split at hn
      · simpa using hn
      · simpa using hn

theorem Segment.RefersWithin.consGroup {count k : Nat}
    {x : Except ReplacementError (List Segment)} (h : RefersWithin count x) (hk : k ≤ count) :
    RefersWithin count (x.map (.group k :: ·)) := by
  intro segments hx n hn
  cases x with
  | error e => cases hx
  | ok rest =>
      cases hx
      rcases List.mem_cons.1 hn with heq | hn
      · cases heq
        exact hk
      · exact h rest rfl n hn

/-- **A replacement refers only to groups that the pattern has.** -/
theorem Segment.refersWithin_parse {count : Nat} {find? : String → Option Nat}
    (hfind : ∀ name n, find? name = some n → n ≤ count) (s : List Char) :
    RefersWithin count (parse count find? s) := by
  fun_induction parse count find? s with
  | case1 =>
      intro segments h n hn
      cases h
      exact (List.not_mem_nil hn).elim
  | case3 c r ih => exact ih.consChar c
  | case6 => exact RefersWithin.consGroup ‹_› (hfind _ _ ‹_›)
  | case8 => exact RefersWithin.consGroup ‹_› (number_le (Nat.not_lt.1 ‹_›) _)
  | case11 => exact RefersWithin.consChar ‹_› _
  | _ => exact nofun

/-- The groups of a match of a plain pattern: only the whole match has a text. -/
def onlyWhole (d : List Char) (number : Nat) : List Char := if number = 0 then d else []

/-- A replacement for an occurrence refers to the text itself. -/
theorem forMatch_plain (r : Replacement) {start : Nat}
    (h : occursAt d subject.toList start = true) :
    r.forMatch subject (matchAt d start) = r.expand (onlyWhole d) := by
  unfold Replacement.forMatch
  congr 1
  funext number
  unfold Match.groupText? onlyWhole
  by_cases hn : number = 0
  · rw [if_pos hn, if_pos hn]
    exact slice_of_occursAt h
  · rw [if_neg hn, if_neg hn]
    rfl

/-- **Replacing the matches is replacing the occurrences.** -/
theorem replaceFrom_plain (hd : d ≠ []) (r : Replacement) {place : Nat}
    (h : place ≤ subject.size) :
    r.replaceFrom subject place ((plainProgram d).findBehind subject place) =
      Text.replaceAllFrom d (r.expand (onlyWhole d)) 0 (subject.toList.drop place) := by
  refine place_induction subject (P := fun place =>
    r.replaceFrom subject place ((plainProgram d).findBehind subject place) =
      Text.replaceAllFrom d (r.expand (onlyWhole d)) 0 (subject.toList.drop place))
    (fun place h ih => ?_) h
  rcases findBehind_cases hd h with ⟨hnil, hnone⟩ | ⟨start, hle, hocc, hbefore, hcons⟩
  · rw [hnil, Text.replaceAllFrom_of_not_occursAt hnone]
    exact slice_to_end subject place
  · have hstop := stop_le_of_occursAt hd hocc
    have hpos := List.length_pos_iff.2 hd
    rw [hcons, drop_eq_slice_append subject hle, Text.replaceAllFrom_before hbefore,
      drop_of_occursAt hocc, Text.replaceAllFrom_at hd, ← ih _ (by omega) hstop]
    show slice subject place start ++ r.forMatch subject (matchAt d start) ++
      r.replaceFrom subject (start + d.length) _ = _
    rw [forMatch_plain r hocc, List.append_assoc]

/-- The subject with every match of a plain pattern replaced. -/
theorem replaceAll_plain (hd : d ≠ []) (r : Replacement) {p : Pattern}
    (hp : p.program = plainProgram d) :
    r.replaceAll p subject = Text.replaceAll d (r.expand (onlyWhole d)) subject.toList := by
  unfold Replacement.replaceAll Text.replaceAll
  rw [hp, findAll_plain hd, replaceFrom_plain hd r (Nat.zero_le _)]
  rfl

end

/-- Where only the whole match can be referred to, every reference is to the text. -/
theorem expand_onlyWhole {segments : List Segment} (h : ∀ n, .group n ∈ segments → n ≤ 0)
    (d : List Char) :
    (Replacement.mk segments).expand (onlyWhole d) =
      (Replacement.mk segments).expand fun _ => d := by
  unfold Replacement.expand
  rw [List.flatMap_def, List.flatMap_def]
  refine congrArg List.flatten (List.map_congr_left fun segment hs => ?_)
  cases segment with
  | plain text => rfl
  | group n => exact if_pos (Nat.le_zero.1 (h n hs))

/-- **A replacement for a pattern without groups is a replacement for plain text**, and the other
    way round. -/
theorem forPlainText_eq {text : String} {p : Pattern} (hp : p.groups = Groups.empty)
    (d : List Char) :
    Replacement.forPlainText text d =
      (Replacement.parse text p).map fun r => r.expand (onlyWhole d) := by
  have hcount : p.groupCount = 0 := by
    unfold groupCount
    rw [hp]
    rfl
  have hnames : p.groups.numberOf? = fun _ => none := by
    rw [hp]
    rfl
  unfold Replacement.forPlainText Replacement.parse
  rw [hcount, hnames]
  have hrefers := @Segment.refersWithin_parse 0 (fun _ => none) (fun _ _ h => nomatch h) text.toList
  cases hparse : Segment.parse 0 (fun _ => none) text.toList with
  | error e => rfl
  | ok segments => exact congrArg Except.ok (expand_onlyWhole (hrefers segments hparse) d).symm

/-! ## 4. Compiling a plain pattern -/

/-- **A pattern that means a text is compiled to the program of the text**, and it has no groups. -/
theorem compile_plain {source : String} {plain : List Char} {p : Pattern}
    (hs : plainText? source.toList = some plain) (hp : compile source {} = .ok p) :
    p.program = plainProgram plain ∧ p.groups = Groups.empty := by
  unfold compile at hp
  rw [parse_plain hs] at hp
  dsimp only at hp
  split at hp
  · cases hp
  · cases hp
    have hrestrict : ∀ numbers, Groups.empty.restrict numbers = Groups.empty := fun _ => rfl
    rw [hrestrict]
    exact ⟨compile_chars plain, rfl⟩

end CallScript.Pattern
