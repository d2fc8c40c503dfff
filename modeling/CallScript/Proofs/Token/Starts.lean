import Mathlib.Data.List.Induction
import CallScript.Proofs.Token.Places
import CallScript.Proofs.Token.Writing

/-!
# Where tokens start

A text is cut in front of every token: what is before the cut decides the place of the token, and the
token is read at the head of what comes after it. A place leads back to its cut.

* `line_after` and `column_after` count the lines and columns of a place;
* `region_after`: the region of a place in a source starts where the cut is, in bytes;
* `exists_cut_of_scan` and `exists_cut_of_refused`: the cuts in front of the tokens, and in front of the
  character that was refused.
-/

namespace CallScript

namespace Place

variable {p q : Place}

/-! ## 1. Lines and columns -/

theorem after_concat (p : Place) (cs : List Char) (c : Char) :
    p.after (cs ++ [c]) = (p.after cs).next c := after_append p cs [c]

theorem file_after (p : Place) (cs : List Char) : (p.after cs).file = p.file := by
  induction cs generalizing p with
  | nil => rfl
  | cons c cs ih =>
      have hnext : (p.next c).file = p.file := by
        unfold next
        split <;> rfl
      exact (ih (p.next c)).trans hnext

/-- A line is ended by a line feed, and by nothing else. -/
theorem line_after (p : Place) (cs : List Char) : (p.after cs).line = p.line + cs.count '\n' := by
  induction cs using List.reverseRecOn with
  | nil => rfl
  | append_singleton cs c ih =>
      rw [after_concat, List.count_append, ← Nat.add_assoc, ← ih]
      unfold next
      split
      · next hc => rw [hc, List.count_singleton_self]
      · next hc =>
        rw [List.count_singleton, if_neg (by simpa using hc)]
        rfl

/-- A column is a character behind the last line feed. -/
theorem column_after (hp : p.column = 1) (cs : List Char) :
    (p.after cs).column = (cs.reverse.takeWhile (· ≠ '\n')).length + 1 := by
  induction cs using List.reverseRecOn with
  | nil => exact hp
  | append_singleton cs c ih =>
      rw [after_concat, List.reverse_append, List.reverse_singleton, List.singleton_append]
      unfold next
      split
      · next hc => rw [List.takeWhile_cons_of_neg (by simp [hc])]; rfl
      · next hc => rw [List.takeWhile_cons_of_pos (by simp [hc]), ih]; rfl

/-! ## 2. Regions -/

/-- A place that is earlier has not reached the later one. -/
theorem reachedBy_of_before (h : Before p q) : q.reachedBy p = false := by
  unfold Before at h
  unfold reachedBy
  rw [← Bool.not_eq_true, Bool.and_eq_true, decide_eq_true_eq, decide_eq_true_eq]
  omega

theorem reachedBy_self (p : Place) : p.reachedBy p = true := by
  simp [reachedBy]

theorem before_after (p : Place) (c : Char) (cs : List Char) : Before p (p.after (c :: cs)) := by
  have hmem : p.after (c :: cs) ∈ Token.placesOf (p.next c) cs :=
    List.mem_append_right _ (List.mem_singleton.2 rfl)
  rcases Token.eq_or_before_of_mem_placesOf cs (p.next c) _ hmem with h | h
  · rw [h]
    exact before_next p c
  · exact (before_next p c).trans h

theorem utf8ByteSize_ofList_cons (c : Char) (cs : List Char) :
    (String.ofList (c :: cs)).utf8ByteSize = c.utf8Size + (String.ofList cs).utf8ByteSize := by
  have hsplit : String.ofList (c :: cs) = String.ofList [c] ++ String.ofList cs := by
    rw [← String.ofList_append]
    rfl
  rw [hsplit, String.utf8ByteSize_append, ← String.singleton_eq_ofList,
    String.utf8ByteSize_singleton]

/-- **Walking through a text finds the place behind its front part at the end of that part**, in
    bytes. The walk may start at any place with the same line and column. -/
theorem offsetFrom_after (before after : List Char) {start here : Place}
    (hline : here.line = start.line) (hcolumn : here.column = start.column) :
    (start.after before).offsetFrom here (before ++ after) =
      (String.ofList before).utf8ByteSize := by
  induction before generalizing start here with
  | nil =>
      have hreached : start.reachedBy here = true := by
        unfold reachedBy
        rw [hline, hcolumn]
        exact reachedBy_self start
      cases after with
      | nil => rfl
      | cons c cs =>
          show (if start.reachedBy here then 0 else _) = 0
          rw [if_pos hreached]
  | cons c cs ih =>
      have hbefore : (start.after (c :: cs)).reachedBy here = false := by
        have h := reachedBy_of_before (before_after start c cs)
        unfold reachedBy at h ⊢
        rw [hline, hcolumn]
        exact h
      have hnext : (here.next c).line = (start.next c).line ∧
          (here.next c).column = (start.next c).column := by
        unfold next
        split
        · exact ⟨congrArg (· + 1) hline, rfl⟩
        · exact ⟨hline, congrArg (· + 1) hcolumn⟩
      show (if (start.after (c :: cs)).reachedBy here then 0 else
        c.utf8Size + (start.after (c :: cs)).offsetFrom (here.next c) (cs ++ after)) = _
      rw [hbefore, if_neg Bool.false_ne_true, utf8ByteSize_ofList_cons, ← ih hnext.1 hnext.2]
      rfl

/-- A place whose offset is the end of the front part has its region there, one byte long unless the text
    ends there. -/
theorem region_of_offset {source : String} {before after : List Char}
    (h : source.toList = before ++ after)
    (hoffset : p.offsetFrom default source.toList = (String.ofList before).utf8ByteSize) :
    p.region source = ⟨(String.ofList before).utf8ByteSize, if after = [] then 0 else 1⟩ := by
  have hsize : source.utf8ByteSize =
      (String.ofList before).utf8ByteSize + (String.ofList after).utf8ByteSize := by
    rw [← String.utf8ByteSize_append, ← String.ofList_append, ← h, String.ofList_toList]
  unfold region
  rw [hoffset, hsize]
  cases after with
  | nil => simp
  | cons c cs =>
      have hpos : 0 < (String.ofList (c :: cs)).utf8ByteSize := by
        rw [utf8ByteSize_ofList_cons]
        exact Nat.lt_of_lt_of_le c.utf8Size_pos (Nat.le_add_right _ _)
      dsimp only
      rw [if_pos (Nat.lt_add_of_pos_right hpos), if_neg (List.cons_ne_nil c cs)]

/-- **The region of a place** starts behind the text in front of it, and it is one byte long unless the
    text ends there. -/
theorem region_after {source : String} {before after : List Char}
    (h : source.toList = before ++ after) (file : Option String) :
    ((⟨file, 1, 1⟩ : Place).after before).region source =
      ⟨(String.ofList before).utf8ByteSize, if after = [] then 0 else 1⟩ := by
  refine region_of_offset h ?_
  rw [h]
  exact @offsetFrom_after before after ⟨file, 1, 1⟩ default rfl rfl

end Place

namespace Token

variable {p stop : Place} {cs : List Char} {s rest : List Located} {t : Token}

/-! ## 3. Cuts -/

/-- The end of a text with places is the text behind a cut. -/
theorem exists_cut_of_suffix (h : s <:+ located p cs) :
    ∃ before after, cs = before ++ after ∧ s = located (p.after before) after := by
  induction cs generalizing p with
  | nil => exact ⟨[], [], rfl, List.suffix_nil.1 h⟩
  | cons c cs ih =>
      rcases List.suffix_cons_iff.1 h with rfl | h
      · exact ⟨[], c :: cs, rfl, rfl⟩
      · obtain ⟨before, after, rfl, rfl⟩ := ih h
        exact ⟨c :: before, after, rfl, rfl⟩

/-- A token stands at the place of the text that it is read from. -/
theorem place_of_lexeme? {after : List Char} (h : lexeme? (located p after) = some (t, rest)) :
    t.place = p := by
  cases after with
  | nil => cases h
  | cons c cs =>
      obtain ⟨o, -, ho⟩ := Option.map_eq_some_iff.1 h
      cases ho
      rfl

/-- Reading one token goes on behind it, in the same text. -/
theorem suffixes_of_lexeme? {x : Located} {r : List Located} (hskip : skipTrivia false s = x :: r)
    (h : lexeme? (x :: r) = some (t, rest)) : (x :: r) <:+ s ∧ rest <:+ s := by
  have htext : (x :: r) <:+ s := hskip ▸ skipTrivia_suffix false s
  obtain ⟨⟨kind, rest'⟩, hkind, he⟩ := Option.map_eq_some_iff.1 h
  cases he
  exact ⟨htext, ((suffix_of_kind? hkind).trans (List.suffix_cons x r)).trans htext⟩

/-- Every token but the end mark is read at the head of an end of the text. -/
theorem suffix_of_mem_scanFrom {ts : List Token} (h : scanFrom stop s = .ok ts) (ht : t ∈ ts) :
    t = ⟨.eof, stop⟩ ∨ ∃ s' rest, s' <:+ s ∧ lexeme? s' = some (t, rest) := by
  fun_induction scanFrom stop s generalizing ts with
  | case1 s hs =>
      cases h
      exact Or.inl (List.mem_singleton.1 ht)
  | case2 => cases h
  | case3 s x r hskip u rest hlex ih =>
      obtain ⟨htext, hleft⟩ := suffixes_of_lexeme? hskip hlex
      obtain ⟨us, hrest, rfl⟩ := cons_eq_ok h
      rcases List.mem_cons.1 ht with rfl | ht
      · exact Or.inr ⟨x :: r, rest, htext, hlex⟩
      · rcases ih hrest ht with heof | ⟨s', rest', hs', hread⟩
        · exact Or.inl heof
        · exact Or.inr ⟨s', rest', hs'.trans hleft, hread⟩

/-- A character is refused where no token is read at it. -/
theorem suffix_of_scanFrom_error {e : LexError} (h : scanFrom stop s = .error e) :
    ∃ x r, (x :: r) <:+ s ∧ lexeme? (x :: r) = none ∧ e = refuse x := by
  fun_induction scanFrom stop s with
  | case1 => cases h
  | case2 s x r hskip hlex =>
      cases h
      exact ⟨x, r, hskip ▸ skipTrivia_suffix false s, hlex, rfl⟩
  | case3 s x r hskip u rest hlex ih =>
      obtain ⟨-, hleft⟩ := suffixes_of_lexeme? hskip hlex
      cases hrest : scanFrom stop rest with
      | ok us =>
          rw [hrest] at h
          cases h
      | error e' =>
          rw [hrest] at h
          cases h
          obtain ⟨y, r', hy, hnone, he⟩ := ih hrest
          exact ⟨y, r', hy.trans hleft, hnone, he⟩

theorem place_refuse (x : Located) : (refuse x).place = x.place := by
  unfold refuse
  split <;> rfl

/-- The end mark is among the tokens of a text. -/
theorem exists_eof_of_scanFrom {ts : List Token} (h : scanFrom stop s = .ok ts) :
    ∃ t ∈ ts, t.kind = .eof := by
  fun_induction scanFrom stop s generalizing ts with
  | case1 =>
      cases h
      exact ⟨_, List.mem_singleton.2 rfl, rfl⟩
  | case2 => cases h
  | case3 s x r hskip u rest hlex ih =>
      obtain ⟨us, hrest, rfl⟩ := cons_eq_ok h
      obtain ⟨t, ht, heof⟩ := ih hrest
      exact ⟨t, List.mem_cons_of_mem _ ht, heof⟩

/-! ## 4. Scripts -/

section

variable {source : String} {file : Option String}

/-- **Every token of a script stands behind a cut**, and it is read there; behind the cut of the end
    mark there is nothing. -/
theorem exists_cut_of_scan {ts : List Token} (h : scan source file = .ok ts) (ht : t ∈ ts) :
    ∃ before after, source.toList = before ++ after ∧ t.place = (⟨file, 1, 1⟩ : Place).after before ∧
      (t.kind = .eof ∧ after = [] ∨ ∃ rest, lexeme? (located t.place after) = some (t, rest)) := by
  rcases suffix_of_mem_scanFrom h ht with rfl | ⟨s', rest, hs', hread⟩
  · exact ⟨source.toList, [], (List.append_nil _).symm, rfl, Or.inl ⟨rfl, rfl⟩⟩
  · obtain ⟨before, after, htext, rfl⟩ := exists_cut_of_suffix hs'
    have hplace := place_of_lexeme? hread
    refine ⟨before, after, htext, hplace, Or.inr ⟨rest, ?_⟩⟩
    rw [hplace]
    exact hread

/-- **A script that cannot be cut into tokens has a character that was refused**: no token is read behind
    the cut in front of it. -/
theorem exists_cut_of_refused {e : LexError} (h : scan source file = .error e) :
    ∃ before c rest, source.toList = before ++ c :: rest ∧
      e.place = (⟨file, 1, 1⟩ : Place).after before ∧
      lexeme? (located e.place (c :: rest)) = none := by
  obtain ⟨x, r, hs, hnone, rfl⟩ := suffix_of_scanFrom_error h
  obtain ⟨before, after, htext, hx⟩ := exists_cut_of_suffix hs
  cases after with
  | nil => cases hx
  | cons c rest =>
      have hplace : (refuse x).place = (⟨file, 1, 1⟩ : Place).after before := by
        rw [place_refuse]
        exact congrArg Located.place (List.cons.inj hx).1
      refine ⟨before, c, rest, htext, hplace, ?_⟩
      rw [hplace, ← hx]
      exact hnone

theorem exists_eof_of_scan {ts : List Token} (h : scan source file = .ok ts) :
    ∃ t ∈ ts, t.kind = .eof := exists_eof_of_scanFrom h

end

end Token

end CallScript
