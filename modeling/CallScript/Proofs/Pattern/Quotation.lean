import CallScript.Pattern.Quotation
import CallScript.Proofs.Text.Joining

/-!
# Quoted sections

A pattern is written in sections: runs in which nothing is quoted, and texts between `\Q` and `\E`. In
a run, a backslash stands in front of a character that does not open a quoted section. At the end of
the pattern there may be a lone backslash, or a quoted section without its end. What a section may
hold is part of its type, so that sections can be written in any order.

* `expandQuotesFrom_unquoted`, `expandQuotesFrom_quoted`: how a run and a quoted text are read;
* `expandQuotes_sections`: the expansion of a pattern, section by section; every pattern is written in
  sections, and expanding it once more changes nothing.
-/

namespace CallScript.Pattern

/-! ## 1. Steps -/

theorem expandQuotesFrom_plain {c : Char} (hc : c ≠ '\\') (s : List Char) :
    expandQuotesFrom false (c :: s) = c :: expandQuotesFrom false s := by
  cases s with
  | nil => rfl
  | cons d s => rw [expandQuotesFrom, if_neg Bool.false_ne_true, if_neg hc]

theorem expandQuotesFrom_pair {c : Char} (hc : c ≠ 'Q') (s : List Char) :
    expandQuotesFrom false ('\\' :: c :: s) = '\\' :: c :: expandQuotesFrom false s := by
  rw [expandQuotesFrom, if_neg Bool.false_ne_true, if_pos rfl, if_neg hc]

theorem expandQuotesFrom_open (s : List Char) :
    expandQuotesFrom false ('\\' :: 'Q' :: s) = expandQuotesFrom true s := rfl

theorem expandQuotesFrom_close (s : List Char) :
    expandQuotesFrom true ('\\' :: 'E' :: s) = expandQuotesFrom false s := rfl

/-- A character of a quoted section is escaped, unless it begins the end of the section. -/
theorem expandQuotesFrom_char {c : Char} {s : List Char}
    (h : c = '\\' → s.head? ≠ some 'E') :
    expandQuotesFrom true (c :: s) = escapeChar c ++ expandQuotesFrom true s := by
  cases s with
  | nil => exact (List.append_nil _).symm
  | cons d s =>
      have hne : ¬ (c = '\\' ∧ d = 'E') := fun hcd => h hcd.1 (congrArg some hcd.2)
      rw [expandQuotesFrom, if_pos rfl, if_neg hne]

/-! ## 2. Runs -/

/-- Nothing is quoted: each backslash has a character behind it that does not open a section. -/
inductive Unquoted : List Char → Prop
  | nil : Unquoted []
  | char {c : Char} {s : List Char} (hc : c ≠ '\\') (rest : Unquoted s) : Unquoted (c :: s)
  | pair {c : Char} {s : List Char} (hc : c ≠ 'Q') (rest : Unquoted s) : Unquoted ('\\' :: c :: s)

theorem Unquoted.append {s t : List Char} (hs : Unquoted s) (ht : Unquoted t) :
    Unquoted (s ++ t) := by
  induction hs with
  | nil => exact ht
  | char hc _ ih => exact .char hc ih
  | pair hc _ ih => exact .pair hc ih

/-- **A run stays as it is.** -/
theorem expandQuotesFrom_unquoted {s : List Char} (h : Unquoted s) (rest : List Char) :
    expandQuotesFrom false (s ++ rest) = s ++ expandQuotesFrom false rest := by
  induction h with
  | nil => rfl
  | char hc _ ih => rw [List.cons_append, expandQuotesFrom_plain hc, ih]; rfl
  | pair hc _ ih => rw [List.cons_append, List.cons_append, expandQuotesFrom_pair hc, ih]; rfl

theorem expandQuotes_of_unquoted {s : List Char} (h : Unquoted s) : expandQuotes s = s := by
  have hs := expandQuotesFrom_unquoted h []
  rwa [List.append_nil, expandQuotesFrom, List.append_nil] at hs

/-- Without a backslash nothing is quoted. -/
theorem unquoted_of_not_mem {s : List Char} (h : '\\' ∉ s) : Unquoted s := by
  induction s with
  | nil => exact .nil
  | cons c s ih =>
      rw [List.mem_cons, not_or] at h
      exact .char (fun hc => h.1 hc.symm) (ih h.2)

/-- In an escaped text nothing is quoted: behind a backslash stands a character that has a meaning,
    and the letter that would open a quoted section has none. -/
theorem unquoted_escape (s : List Char) : Unquoted (escape s) := by
  induction s with
  | nil => exact .nil
  | cons c s ih =>
      show Unquoted (escapeChar c ++ escape s)
      unfold escapeChar
      split
      · next hc => exact .pair (fun hQ => absurd (hQ ▸ hc) (by decide)) ih
      · next hc => exact .char (fun hslash => hc (hslash ▸ by decide)) ih

/-! ## 3. Quoted texts -/

/-- What follows the first character of a text without the end of a section in it. -/
theorem not_infix_cons {c : Char} {s : List Char} (h : ¬ ['\\', 'E'] <:+: c :: s) :
    (c = '\\' → s.head? ≠ some 'E') ∧ ¬ ['\\', 'E'] <:+: s := by
  rw [List.infix_cons_iff, not_or] at h
  refine ⟨?_, h.2⟩
  rintro rfl hs
  obtain ⟨s, rfl⟩ := List.head?_eq_some_iff.1 hs
  exact h.1 ⟨s, rfl⟩

/-- **A quoted text is escaped**, as long as its section does not end in it. -/
theorem expandQuotesFrom_quoted {q : List Char} (h : ¬ ['\\', 'E'] <:+: q) {rest : List Char}
    (hrest : rest.head? ≠ some 'E') :
    expandQuotesFrom true (q ++ rest) = escape q ++ expandQuotesFrom true rest := by
  induction q with
  | nil => rfl
  | cons c q ih =>
      obtain ⟨hc, hq⟩ := not_infix_cons h
      have hnext : c = '\\' → (q ++ rest).head? ≠ some 'E' := by
        cases q with
        | nil => exact fun _ => hrest
        | cons d q => exact hc
      rw [List.cons_append, expandQuotesFrom_char hnext, ih hq]
      exact (List.append_assoc _ _ _).symm

/-! ## 4. Sections -/

/-- A run. -/
structure Run where
  chars : List Char
  isUnquoted : Unquoted chars

/-- A text that can stand between the marks of a quoted section. -/
structure Quote where
  chars : List Char
  endless : ¬ ['\\', 'E'] <:+: chars

/-- A section of a pattern. -/
inductive Section
  | run (r : Run)
  | quoted (q : Quote)

/-- What stands behind the last section. -/
inductive Ending
  | nothing
  | backslash
  | unclosed (q : Quote)

namespace Section

def written : Section → List Char
  | .run r => r.chars
  | .quoted q => '\\' :: 'Q' :: (q.chars ++ ['\\', 'E'])

def expanded : Section → List Char
  | .run r => r.chars
  | .quoted q => escape q.chars

/-- A section is expanded, and reading goes on behind it. -/
theorem expandQuotesFrom_written (x : Section) (rest : List Char) :
    expandQuotesFrom false (x.written ++ rest) = x.expanded ++ expandQuotesFrom false rest := by
  cases x with
  | run r => exact expandQuotesFrom_unquoted r.isUnquoted rest
  | quoted q =>
      have hmark : ('\\' :: 'E' :: rest).head? ≠ some 'E' := by simp
      show expandQuotesFrom false ('\\' :: 'Q' :: ((q.chars ++ ['\\', 'E']) ++ rest)) = _
      rw [expandQuotesFrom_open, List.append_assoc]
      exact expandQuotesFrom_quoted q.endless hmark

theorem unquoted_expanded (x : Section) : Unquoted x.expanded := by
  cases x with
  | run r => exact r.isUnquoted
  | quoted q => exact unquoted_escape q.chars

end Section

namespace Ending

def written : Ending → List Char
  | .nothing => []
  | .backslash => ['\\']
  | .unclosed q => '\\' :: 'Q' :: q.chars

def expanded : Ending → List Char
  | .nothing => []
  | .backslash => ['\\']
  | .unclosed q => escape q.chars

theorem expandQuotes_written (x : Ending) : expandQuotes x.written = x.expanded := by
  cases x with
  | nothing => rfl
  | backslash => rfl
  | unclosed q =>
      have hq := @expandQuotesFrom_quoted q.chars q.endless [] nofun
      rwa [List.append_nil, expandQuotesFrom, List.append_nil] at hq

theorem expandQuotes_expanded (x : Ending) : expandQuotes x.expanded = x.expanded := by
  cases x with
  | nothing => rfl
  | backslash => rfl
  | unclosed q => exact expandQuotes_of_unquoted (unquoted_escape q.chars)

end Ending

/-- A pattern in sections. -/
structure Sectioned where
  sections : List Section
  ending : Ending

namespace Sectioned

/-- The pattern as it is written. -/
def written (p : Sectioned) : List Char := p.sections.flatMap Section.written ++ p.ending.written

/-- The pattern with the texts of its quoted sections escaped. -/
def expanded (p : Sectioned) : List Char :=
  p.sections.flatMap Section.expanded ++ p.ending.expanded

/-- One more section in front. -/
def cons (x : Section) (p : Sectioned) : Sectioned := ⟨x :: p.sections, p.ending⟩

theorem written_cons (x : Section) (p : Sectioned) :
    (p.cons x).written = x.written ++ p.written := List.append_assoc _ _ _

theorem expanded_cons (x : Section) (p : Sectioned) :
    (p.cons x).expanded = x.expanded ++ p.expanded := List.append_assoc _ _ _

/-- A pattern is expanded section by section. -/
theorem expandQuotes_written (p : Sectioned) : expandQuotes p.written = p.expanded := by
  obtain ⟨sections, ending⟩ := p
  induction sections with
  | nil => exact ending.expandQuotes_written
  | cons x sections ih =>
      show expandQuotes (cons x ⟨sections, ending⟩).written = (cons x ⟨sections, ending⟩).expanded
      rw [written_cons, expanded_cons, ← ih]
      exact x.expandQuotesFrom_written _

/-- In an expanded pattern there is nothing to expand. -/
theorem expandQuotes_expanded (p : Sectioned) : expandQuotes p.expanded = p.expanded := by
  have hsections : Unquoted (p.sections.flatMap Section.expanded) := by
    induction p.sections with
    | nil => exact .nil
    | cons x sections ih => exact x.unquoted_expanded.append ih
  show expandQuotesFrom false (_ ++ p.ending.expanded) = _
  rw [expandQuotesFrom_unquoted hsections]
  exact congrArg (_ ++ ·) p.ending.expandQuotes_expanded

/-- Behind its mark a quoted section reaches to the first end, or to the end of the pattern. -/
theorem exists_written_of_open (s : List Char)
    (hcons : ∀ (x : Section) (rest : List Char), '\\' :: 'Q' :: s = x.written ++ rest →
      rest.length < s.length → ∃ p : Sectioned, p.written = '\\' :: 'Q' :: s) :
    ∃ p : Sectioned, p.written = '\\' :: 'Q' :: s := by
  rcases Text.first_occurrence ['\\', 'E'] s with hnone | ⟨q, rest, rfl, hfirst⟩
  · have hq : ¬ ['\\', 'E'] <:+: s :=
      Text.not_infix_of_not_occursAt (List.cons_ne_nil _ _) (by rwa [List.append_nil])
    exact ⟨⟨[], .unclosed ⟨s, hq⟩⟩, rfl⟩
  · have hq := Text.not_infix_of_not_occursAt (List.cons_ne_nil _ _) hfirst
    refine hcons (.quoted ⟨q, hq⟩) rest ?_
      (by simp only [List.length_append, List.length_cons]; omega)
    simp [Section.written]

/-- **Every pattern is written in sections.** The induction is on the length: a section takes at least
    one character, and a quoted one reaches to the first end behind its mark. -/
theorem exists_written (s : List Char) : ∃ p : Sectioned, p.written = s := by
  induction hn : s.length using Nat.strongRecOn generalizing s with
  | ind n ih =>
      have hcons : ∀ (x : Section) (rest : List Char), s = x.written ++ rest →
          rest.length < s.length → ∃ p : Sectioned, p.written = s := by
        intro x rest hs hlt
        obtain ⟨p, hp⟩ := ih rest.length (hn ▸ hlt) rest rfl
        exact ⟨p.cons x, by rw [written_cons, hp, hs]⟩
      match s with
      | [] => exact ⟨⟨[], .nothing⟩, rfl⟩
      | c :: s =>
          by_cases hc : c = '\\'
          · subst hc
            match s with
            | [] => exact ⟨⟨[], .backslash⟩, rfl⟩
            | d :: s =>
                by_cases hd : d = 'Q'
                · subst hd
                  exact exists_written_of_open s fun x rest hs hlt =>
                    hcons x rest hs (Nat.lt_succ_of_lt (Nat.lt_succ_of_lt hlt))
                · exact hcons (.run ⟨['\\', d], .pair hd .nil⟩) s rfl
                    (Nat.lt_succ_of_lt (Nat.lt_succ_self _))
          · exact hcons (.run ⟨[c], .char hc .nil⟩) s rfl (Nat.lt_succ_self _)

end Sectioned

/-- **Expanding a pattern escapes the texts of its quoted sections and leaves all else as it is.**
    Every pattern is written in sections, and one that was expanded has no quoted section left. -/
theorem expandQuotes_sections :
    (∀ p : Sectioned, expandQuotes p.written = p.expanded) ∧
      (∀ s, ∃ p : Sectioned, p.written = s) ∧
      ∀ s, expandQuotes (expandQuotes s) = expandQuotes s := by
  refine ⟨Sectioned.expandQuotes_written, Sectioned.exists_written, fun s => ?_⟩
  obtain ⟨p, rfl⟩ := Sectioned.exists_written s
  rw [p.expandQuotes_written, p.expandQuotes_expanded]

end CallScript.Pattern
