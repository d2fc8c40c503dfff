import CallScript.Proofs.Pattern.Occurrences

/-!
# Progress through the matches

A search that goes on where the match before ended comes to an end: it begins one character later
each time, at least. Here this is followed in bytes. A search in bytes can only begin between two
characters, and behind an empty match the next place is as many bytes away as the next character
has.

* `pairwise_findTouching`: each match begins at the end of those before it or behind them, and no
  two begin at the same place;
* `Turns` is the loop in bytes, which has no way to go on from inside a character;
* `turns_findTouching`: the loop gets through, and it finds what is found in characters.
-/

namespace CallScript.Pattern

open Text (bytesBefore)

variable {p : Program} {subject : Subject}

/-! ## 1. The order of the matches -/

/-- What is found from a place on begins there or behind it. -/
theorem start_le_of_mem_findTouchingFrom {place : Nat} :
    ∀ m ∈ p.findTouchingFrom subject place, place ≤ m.start := by
  fun_induction Program.findTouchingFrom p subject place with
  | case1 => exact nofun
  | case2 place m h hresume ih =>
      have hwithin := Program.search_within h
      refine List.forall_mem_cons.2 ⟨hwithin.1, fun m' hm' => ?_⟩
      exact Nat.le_trans (Nat.le_of_lt hresume.1) (ih m' hm')

/-- **The matches are found one behind the other**, and no two of them begin at the same place. -/
theorem pairwise_findTouching (p : Program) (subject : Subject) :
    (p.findTouching subject).Pairwise fun m m' => m.stop ≤ m'.start ∧ m.start < m'.start := by
  unfold Program.findTouching
  fun_induction Program.findTouchingFrom p subject 0 with
  | case1 => exact .nil
  | case2 place m h hresume ih =>
      have hwithin := Program.search_within h
      refine List.pairwise_cons.2 ⟨fun m' hm' => ?_, ih⟩
      have hle := start_le_of_mem_findTouchingFrom m' hm'
      simp only [Match.Within, Program.resume] at hwithin hle
      split at hle <;> omega

/-! ## 2. The loop in bytes -/

/-- The size of a text in bytes. -/
def sizeInBytes (s : List Char) : Nat := (String.ofList s).utf8ByteSize

/-- Where the search goes on behind a match, in bytes: at its end if it is not empty, else behind the
    next character, or past the end of the text if there is none. -/
def resumeInBytes (s : List Char) (m : Match) : Nat :=
  if bytesBefore s m.start < bytesBefore s m.stop then bytesBefore s m.stop
  else
    match s[m.stop]? with
    | some c => bytesBefore s m.stop + c.utf8Size
    | none => sizeInBytes s + 1

/-- What a search from a number of bytes on gives. The bytes must be those of whole characters. -/
def SearchGives (p : Program) (s : List Char) (start : Nat) (result : Option Match) : Prop :=
  ∃ place ≤ s.length, bytesBefore s place = start ∧ p.search s.toArray place = result

/-- The loop through the matches in bytes: from where it goes on, where it searches, and what it
    finds. It ends past the end of the text, or when nothing is found. -/
inductive Turns (p : Program) (s : List Char) : (start : Nat) → List Nat → List Match → Prop
  | past {start : Nat} (h : sizeInBytes s < start) : Turns p s start [] []
  | last {start : Nat} (h : SearchGives p s start none) : Turns p s start [start] []
  | turn {start : Nat} {m : Match} {starts : List Nat} {found : List Match}
      (h : SearchGives p s start (some m)) (rest : Turns p s (resumeInBytes s m) starts found) :
      Turns p s start (start :: starts) (m :: found)

/-- **The loop searches only between characters.** -/
theorem Turns.isValid {s : List Char} {start : Nat} {starts : List Nat} {found : List Match}
    (h : Turns p s start starts found) :
    ∀ k ∈ starts, String.Pos.Raw.IsValid (String.ofList s) ⟨k⟩ := by
  have hvalid : ∀ {k result}, SearchGives p s k result →
      String.Pos.Raw.IsValid (String.ofList s) ⟨k⟩ := by
    rintro k result ⟨place, -, rfl, -⟩
    refine String.Pos.Raw.isValid_iff_exists_append.2
      ⟨String.ofList (s.take place), String.ofList (s.drop place), ?_, rfl⟩
    rw [← String.ofList_append, List.take_append_drop]
  induction h with
  | past => exact nofun
  | last h => exact List.forall_mem_cons.2 ⟨hvalid h, nofun⟩
  | turn h _ ih => exact List.forall_mem_cons.2 ⟨hvalid h, ih⟩

/-- A search from a number of bytes on gives one result, and only within the text. -/
theorem SearchGives.unique {s : List Char} {start : Nat} {result result' : Option Match}
    (h : SearchGives p s start result) (h' : SearchGives p s start result') :
    result = result' := by
  obtain ⟨place, hle, hplace, rfl⟩ := h
  obtain ⟨place', hle', hplace', rfl⟩ := h'
  rcases Nat.lt_trichotomy place place' with hlt | rfl | hgt
  · have := Text.bytesBefore_lt hlt hle'
    omega
  · rfl
  · have := Text.bytesBefore_lt hgt hle
    omega

theorem SearchGives.le {s : List Char} {start : Nat} {result : Option Match}
    (h : SearchGives p s start result) : start ≤ sizeInBytes s := by
  obtain ⟨place, hle, rfl, -⟩ := h
  have hend : bytesBefore s s.length = sizeInBytes s := by
    rw [bytesBefore, List.take_length]
    rfl
  exact hend ▸ Text.bytesBefore_le s hle

/-- **The loop has only one way to go.** -/
theorem Turns.unique {s : List Char} {start : Nat} {starts starts' : List Nat}
    {found found' : List Match} (h : Turns p s start starts found)
    (h' : Turns p s start starts' found') : starts = starts' ∧ found = found' := by
  induction h generalizing starts' found' with
  | past hpast =>
      cases h' with
      | past => exact ⟨rfl, rfl⟩
      | last h' => exact absurd h'.le (Nat.not_le.2 hpast)
      | turn h' => exact absurd h'.le (Nat.not_le.2 hpast)
  | last h =>
      cases h' with
      | past hpast => exact absurd h.le (Nat.not_le.2 hpast)
      | last => exact ⟨rfl, rfl⟩
      | turn h' => exact nomatch h.unique h'
  | turn h _ ih =>
      cases h' with
      | past hpast => exact absurd h.le (Nat.not_le.2 hpast)
      | last h' => exact nomatch h.unique h'
      | turn h' rest' =>
          obtain rfl := Option.some.inj (h.unique h')
          obtain ⟨rfl, rfl⟩ := ih rest'
          exact ⟨rfl, rfl⟩

/-! ## 3. Bytes and characters -/

/-- A place in bytes. The place behind the end of the text is past its end in bytes, too. -/
def placeInBytes (s : List Char) (place : Nat) : Nat :=
  if place ≤ s.length then bytesBefore s place else sizeInBytes s + 1

/-- Behind one more character are its bytes. -/
theorem bytesBefore_succ {s : List Char} {place : Nat} {c : Char} (h : s[place]? = some c) :
    bytesBefore s (place + 1) = bytesBefore s place + c.utf8Size := by
  obtain ⟨hlt, rfl⟩ := List.getElem?_eq_some_iff.1 h
  have hnext : (s.drop place).take 1 = [s[place]] := by
    rw [List.drop_eq_getElem_cons hlt]
    rfl
  rw [Text.bytesBefore_add, hnext]
  simp

/-- **In bytes the search goes on where it goes on in characters.** -/
theorem resumeInBytes_eq {s : List Char} {m : Match} {place : Nat} (h : m.Within place s.length) :
    resumeInBytes s m = placeInBytes s (Program.resume m) := by
  obtain ⟨-, hle, hstop⟩ := h
  unfold resumeInBytes placeInBytes Program.resume
  by_cases hlt : m.start < m.stop
  · rw [if_pos (Text.bytesBefore_lt hlt hstop), if_pos hlt, if_pos hstop]
  · have hsame : m.start = m.stop := by omega
    rw [if_neg (by rw [hsame]; exact Nat.lt_irrefl _), if_neg hlt]
    cases hc : s[m.stop]? with
    | some c =>
        have hbound : m.stop + 1 ≤ s.length := (List.getElem?_eq_some_iff.1 hc).1
        rw [if_pos hbound, bytesBefore_succ hc]
    | none =>
        have hbound := List.getElem?_eq_none_iff.1 hc
        rw [if_neg (by omega)]

/-- From every place on the loop gets through, and it finds what is found in characters. -/
theorem turns_findTouchingFrom (p : Program) (s : List Char) (place : Nat) :
    ∃ starts, Turns p s (placeInBytes s place) starts (p.findTouchingFrom s.toArray place) := by
  fun_induction Program.findTouchingFrom p s.toArray place with
  | case1 place h =>
      by_cases hle : place ≤ s.length
      · exact ⟨_, .last ⟨place, hle, (if_pos hle).symm, h⟩⟩
      · refine ⟨[], .past ?_⟩
        rw [placeInBytes, if_neg hle]
        exact Nat.lt_succ_self _
  | case2 place m h hresume ih =>
      obtain ⟨starts, hturns⟩ := ih
      have hle : place ≤ s.length := hresume.2
      rw [← resumeInBytes_eq (Program.search_within h)] at hturns
      exact ⟨_, .turn ⟨place, hle, (if_pos hle).symm, h⟩ hturns⟩

/-- **The loop over a text gets through**, and it finds all matches. -/
theorem turns_findTouching (p : Program) (s : List Char) :
    ∃ starts, Turns p s 0 starts (p.findTouching s.toArray) :=
  turns_findTouchingFrom p s 0

end CallScript.Pattern
