import CallScript.Pattern
import CallScript.Proofs.Pattern.Quotation

/-!
# Reading plain patterns

A pattern that means nothing but a text is read to the characters of the text, one after the other,
and it has no groups.

* `readAll_escape`: an escaped text is read to its characters;
* `readAll_of_not_live`: so is a text of which no character has a meaning;
* `parse_plain`: `plainText?` tells what a pattern is read to.
-/

namespace CallScript.Pattern

/-! ## 1. Characters -/

/-- A character without a meaning anywhere has none here. -/
theorem isLive_eq_false {c : Char} (h : isMeta c = false) : isLive c = false := by
  have hsub : "[\\^$.|?*+()\x7b".toList.all isMeta = true := by decide
  rw [Bool.eq_false_iff]
  intro hl
  rw [isLive, List.contains_iff_mem] at hl
  rw [List.all_eq_true.1 hsub c hl] at h
  cases h

/-- Behind a backslash the character stands for itself: it begins no escape of another kind. -/
def escapesItself (c : Char) : Bool :=
  !c.isDigit && !(c == 'p' || c == 'P' || c == 'b') && (codePointWidth? c).isNone &&
    (classEscape? c).isNone && (control? c).isNone && (lookEscape? c).isNone && isEscapable c

/-- A character that has a meaning stands for itself behind a backslash. -/
theorem escapesItself_of_isMeta {c : Char} (h : isMeta c = true) : escapesItself c = true := by
  have hsub : "\\.+*?()|[]\x7b\x7d^$#&-~".toList.all escapesItself = true := by decide
  rw [isMeta, List.contains_iff_mem] at h
  exact List.all_eq_true.1 hsub c h

/-- The escape of a character that has a meaning is the character. -/
theorem escapeOf_of_isMeta {m : Mode} {c : Char} (h : isMeta c = true) :
    escapeOf m c = pure (m.char c) := by
  have hself := escapesItself_of_isMeta h
  simp only [escapesItself, Bool.and_eq_true, Bool.not_eq_true', Bool.or_eq_false_iff,
    beq_eq_false_iff_ne, Option.isNone_iff_eq_none] at hself
  obtain ⟨⟨⟨⟨⟨⟨hdigit, ⟨hp, hP⟩, hb⟩, hwidth⟩, hclass⟩, hcontrol⟩, hlook⟩, hescapable⟩ := hself
  simp [escapeOf, hdigit, hp, hP, hb, hwidth, hclass, hcontrol, hlook, hescapable]

/-- The mode of a pattern without flags. -/
def plainMode : Mode := Mode.ofFlags {}

theorem char_plainMode (c : Char) : plainMode.char c = .char c := rfl

/-! ## 2. Texts -/

namespace Reading

variable {g : Reading} {c : Char} {s : List Char}

/-- The reading with the characters of a text behind what was read. -/
def pushChars (g : Reading) (s : List Char) : Reading := s.foldl (fun g c => g.push (.char c)) g

theorem pushChars_eq (g : Reading) (s : List Char) :
    g.pushChars s = { g with sequence := (s.map Expr.char).reverse ++ g.sequence } := by
  induction s generalizing g with
  | nil => rfl
  | cons c s ih =>
      show (g.push (.char c)).pushChars s = _
      rw [ih, List.map_cons, List.reverse_cons, List.append_assoc]
      rfl

/-- Where the mode is that of a pattern without flags, nothing is passed over. -/
theorem readAll_cons (hm : g.mode = plainMode) (c : Char) (s : List Char) :
    g.readAll (c :: s) =
      match g.piece c s with
      | .error e => .error e
      | .ok t => readAll t.value t.rest := by
  have hs : Read.skipped g.mode.verbose (c :: s) = c :: s := by
    rw [hm]
    rfl
  rw [readAll]
  split
  · next h =>
    rw [hs] at h
    cases h
  · next h =>
    rw [hs] at h
    cases h
    rfl

theorem readAll_nil (hm : g.mode = plainMode) : g.readAll [] = g.finish := by
  have hs : Read.skipped g.mode.verbose [] = [] := by
    rw [hm]
    rfl
  rw [readAll]
  split
  · rfl
  · next h =>
    rw [hs] at h
    cases h

/-- A character without a meaning stands for itself. -/
theorem readAll_char (hm : g.mode = plainMode) (hc : isLive c = false) (s : List Char) :
    g.readAll (c :: s) = (g.push (.char c)).readAll s := by
  have hpiece : g.piece c = pure (g.push (.char c)) := by
    have hne : ∀ d ∈ "[\\^$.|?*+()\x7b".toList, c ≠ d := by
      rintro d hd rfl
      rw [isLive, Bool.eq_false_iff] at hc
      exact hc (List.contains_iff_mem.2 hd)
    have hop : operator? c = none := by
      unfold operator?
      split
      · exact absurd rfl (hne '?' (by decide))
      · exact absurd rfl (hne '*' (by decide))
      · exact absurd rfl (hne '+' (by decide))
      · rfl
    unfold piece
    rw [hop]
    dsimp only
    split
    · exact absurd rfl (hne '(' (by decide))
    · exact absurd rfl (hne ')' (by decide))
    · exact absurd rfl (hne '|' (by decide))
    · exact absurd rfl (hne '[' (by decide))
    · exact absurd rfl (hne '\x7b' (by decide))
    · exact absurd rfl (hne '\\' (by decide))
    · exact absurd rfl (hne '.' (by decide))
    · exact absurd rfl (hne '^' (by decide))
    · exact absurd rfl (hne '$' (by decide))
    · rw [hm, char_plainMode]
  rw [readAll_cons hm, hpiece]
  rfl

/-- A character behind a backslash stands for itself, if it has a meaning. -/
theorem readAll_escaped (hm : g.mode = plainMode) (hc : isMeta c = true) (s : List Char) :
    g.readAll ('\\' :: c :: s) = (g.push (.char c)).readAll s := by
  have hpiece : g.piece '\\' (c :: s) = .ok ⟨g.push (.char c), s, Nat.le_succ _⟩ := by
    have he : readEscape g.mode (c :: s) = .ok ⟨.char c, s, Nat.le_succ _⟩ := by
      rw [hm]
      simp only [readEscape, bind, Read.andThen, Read.peek, List.head?_cons, Read.bump,
        escapeOf_of_isMeta hc]
      rfl
    show Read.andThen (readEscape g.mode) (fun e => pure (g.push e)) (c :: s) = _
    simp only [Read.andThen, he]
    rfl
  rw [readAll_cons hm, hpiece]

/-- **An escaped text is read to its characters.** -/
theorem readAll_escape (hm : g.mode = plainMode) (s : List Char) :
    g.readAll (escape s) = (g.pushChars s).finish := by
  induction s generalizing g with
  | nil => exact readAll_nil hm
  | cons c s ih =>
      show g.readAll (escapeChar c ++ escape s) = _
      unfold escapeChar
      by_cases hc : isMeta c = true
      · rw [if_pos hc]
        show g.readAll ('\\' :: c :: escape s) = _
        rw [readAll_escaped hm hc, ih (g := g.push (.char c)) hm]
        rfl
      · rw [if_neg hc]
        show g.readAll (c :: escape s) = _
        rw [readAll_char hm (isLive_eq_false (Bool.eq_false_iff.2 hc)),
          ih (g := g.push (.char c)) hm]
        rfl

/-- **A text of which no character has a meaning is read to its characters.** -/
theorem readAll_of_not_live (hm : g.mode = plainMode) (hs : s.any isLive = false) :
    g.readAll s = (g.pushChars s).finish := by
  induction s generalizing g with
  | nil => exact readAll_nil hm
  | cons c s ih =>
      rw [List.any_cons, Bool.or_eq_false_iff] at hs
      rw [readAll_char hm hs.1, ih (g := g.push (.char c)) hm hs.2]
      rfl

theorem depthAll_chars (s : List Char) : Expr.depthAll (s.map Expr.char) = 0 := by
  induction s with
  | nil => rfl
  | cons c s ih =>
      show max 0 (Expr.depthAll (s.map Expr.char)) = 0
      exact (Nat.zero_max _).trans ih

theorem depth_ofSequence_chars (s : List Char) : (Expr.ofSequence (s.map Expr.char)).depth ≤ 1 := by
  match s with
  | [] => exact Nat.zero_le 1
  | [c] => exact Nat.zero_le 1
  | c :: d :: s =>
      show Expr.depthAll ((c :: d :: s).map Expr.char) + 1 ≤ 1
      exact Nat.le_of_eq (congrArg (· + 1) (depthAll_chars _))

/-- Nothing is open at the end of characters, and their depth is in order. -/
theorem finish_pushChars (s : List Char) :
    (pushChars ⟨plainMode, [], [], [], Groups.empty⟩ s).finish =
      .ok (Expr.ofSequence (s.map Expr.char), Groups.empty) := by
  have hfields := pushChars_eq ⟨plainMode, [], [], [], Groups.empty⟩ s
  rw [List.append_nil] at hfields
  have hcurrent : (pushChars ⟨plainMode, [], [], [], Groups.empty⟩ s).current =
      Expr.ofSequence (s.map Expr.char) := by
    rw [hfields]
    show Expr.ofSequence ((s.map Expr.char).reverse.reverse) = _
    rw [List.reverse_reverse]
  have hdepth : ¬ nestLimit < (Expr.ofSequence (s.map Expr.char)).depth := by
    have := depth_ofSequence_chars s
    simp only [nestLimit]
    omega
  unfold finish
  rw [hcurrent, if_neg hdepth, hfields]
  rfl

end Reading

/-! ## 3. Plain patterns -/

/-- A pattern of which no character has a meaning has no backslash, so nothing in it is quoted. -/
theorem expandQuotes_of_not_live {s : List Char} (hs : s.any isLive = false) :
    expandQuotes s = s := by
  refine expandQuotes_of_unquoted (unquoted_of_not_mem fun hmem => ?_)
  rw [List.any_eq_false] at hs
  exact hs '\\' hmem (by decide)

/-- The expansion of one quoted section is the escaped text. -/
theorem expandQuotes_quoted {inner : List Char} (h : ¬ ['\\', 'E'] <:+: inner) :
    expandQuotes ('\\' :: 'Q' :: (inner ++ ['\\', 'E'])) = escape inner := by
  have hmark : ['\\', 'E'].head? ≠ some 'E' := by decide
  show expandQuotesFrom true (inner ++ ['\\', 'E']) = _
  rw [expandQuotesFrom_quoted h hmark, expandQuotesFrom_close]
  exact List.append_nil _

/-- A pattern that means a text is one quoted section, or no character of it has a meaning. -/
theorem plainText?_eq_some {source plain : List Char} (h : plainText? source = some plain) :
    (source = '\\' :: 'Q' :: (plain ++ ['\\', 'E']) ∧
        ¬ ['\\', 'E'] <:+: plain) ∨
      (source = plain ∧ source.any isLive = false) := by
  have hlive : ∀ {s : List Char}, unlessLive? s = some plain →
      s = plain ∧ s.any isLive = false := by
    intro s hs
    unfold unlessLive? at hs
    split at hs
    · cases hs
    · next hs' =>
      cases hs
      exact ⟨rfl, Bool.eq_false_iff.2 hs'⟩
  unfold plainText? at h
  split at h
  · next r =>
    split at h
    · next inner hr =>
      dsimp only at h
      split at h
      · cases h
      · next hn =>
        cases h
        rw [Bool.or_eq_true, not_or, Text.occursIn_iff, Text.occursIn_iff] at hn
        refine Or.inl ⟨?_, hn.2⟩
        have hr' := congrArg List.reverse hr
        rw [List.reverse_reverse] at hr'
        rw [hr']
        simp
    · exact Or.inr (hlive h)
  · exact Or.inr (hlive h)

/-- **A pattern that means a text is read to the characters of the text**, and it has no groups. -/
theorem parse_plain {source plain : List Char} (h : plainText? source = some plain) :
    Expr.parse {} (expandQuotes source) =
      .ok (Expr.ofSequence (plain.map Expr.char), Groups.empty) := by
  show Reading.readAll ⟨plainMode, [], [], [], Groups.empty⟩ (expandQuotes source) = _
  rcases plainText?_eq_some h with ⟨rfl, hE⟩ | ⟨rfl, hs⟩
  · rw [expandQuotes_quoted hE, Reading.readAll_escape rfl, Reading.finish_pushChars]
  · rw [expandQuotes_of_not_live hs, Reading.readAll_of_not_live rfl hs,
      Reading.finish_pushChars]

end CallScript.Pattern
