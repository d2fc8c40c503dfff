import CallScript.Token.Lexer
import CallScript.Proofs.Text.Decimal

/-!
# Writing tokens

Which characters write a token, apart from reading them (`Token.Writes`). In a string, a character
stands for itself, or a backslash and a character for what they mean (`WritesBody`). A name and an
integer end where the next character does not go on with them (`Kind.goesOn`).

* `lexeme?_of_writes`: what writes a token is read as that token, if the text behind it does not go
  on with it;
* `scanFrom_of_cuts`: a text that is made up of such texts, with spaces among them, is cut into their
  tokens at their places.
-/

namespace CallScript.Token

variable {p : Place} {c : Char} {cs rest : List Char}

/-! ## 1. Characters and their places -/

theorem located_append (p : Place) (cs rest : List Char) :
    located p (cs ++ rest) = located p cs ++ located (p.after cs) rest := by
  induction cs generalizing p with
  | nil => rfl
  | cons c cs ih =>
      show _ :: located (p.next c) (cs ++ rest) = _ :: (located (p.next c) cs ++ _)
      rw [ih]
      rfl

theorem chars_located (p : Place) (cs : List Char) : chars (located p cs) = cs := by
  induction cs generalizing p with
  | nil => rfl
  | cons c cs ih => exact congrArg (c :: ·) (ih (p.next c))

theorem forall_mem_located {P : Char → Prop} (h : ∀ c ∈ cs, P c) :
    ∀ x ∈ located p cs, P x.char := by
  intro x hx
  apply h
  rw [← chars_located p cs]
  exact List.mem_map_of_mem hx

/-- The text does not start with a character of the class. -/
def StopsAt (P : Char → Bool) (rest : List Char) : Prop := ∀ c ∈ rest.head?, P c = false

section

variable {P : Char → Bool}

theorem takeWhile_of_stopsAt (h : StopsAt P rest) (p : Place) :
    (located p rest).takeWhile (P ·.char) = [] := by
  cases rest with
  | nil => rfl
  | cons c rest => exact List.takeWhile_cons_of_neg (by simp [h c rfl])

theorem dropWhile_of_stopsAt (h : StopsAt P rest) (p : Place) :
    (located p rest).dropWhile (P ·.char) = located p rest := by
  cases rest with
  | nil => rfl
  | cons c rest => exact List.dropWhile_cons_of_neg (by simp [h c rfl])

/-- A run of characters of a class ends where the text behind it does not go on with the class. -/
theorem takeWhile_located (hall : ∀ c ∈ cs, P c = true) (hrest : StopsAt P rest) (p : Place) :
    (located p (cs ++ rest)).takeWhile (P ·.char) = located p cs := by
  rw [located_append, List.takeWhile_append_of_pos (forall_mem_located hall),
    takeWhile_of_stopsAt hrest, List.append_nil]

theorem dropWhile_located (hall : ∀ c ∈ cs, P c = true) (hrest : StopsAt P rest) (p : Place) :
    (located p (cs ++ rest)).dropWhile (P ·.char) = located (p.after cs) rest := by
  rw [located_append, List.dropWhile_append_of_pos (forall_mem_located hall),
    dropWhile_of_stopsAt hrest]

end

/-! ## 2. Strings -/

/-- Between quotes of this kind, the second text writes the first one. -/
inductive WritesBody (quote : Char) : List Char → List Char → Prop
  | nil : WritesBody quote [] []
  /-- A character that neither ends the string nor starts an escape stands for itself. -/
  | plain {text written : List Char} (c : Char) (hq : c ≠ quote) (hb : c ≠ '\\')
      (h : WritesBody quote text written) : WritesBody quote (c :: text) (c :: written)
  | escape {text written : List Char} (c : Char) (h : WritesBody quote text written) :
      WritesBody quote (unescape c ++ text) ('\\' :: c :: written)

/-- Characters that are written as themselves, or as escapes that stand for them, write a string. -/
theorem writesBody_flatMap {α : Type} {quote : Char} {char : α → Char} {write : α → List Char}
    (h : ∀ x, (write x = [char x] ∧ char x ≠ quote ∧ char x ≠ '\\') ∨
      ∃ e, write x = ['\\', e] ∧ unescape e = [char x]) (xs : List α) :
    WritesBody quote (xs.map char) (xs.flatMap write) := by
  induction xs with
  | nil => exact .nil
  | cons x xs ih =>
      rw [List.map_cons, List.flatMap_cons]
      obtain ⟨hx, hquote, hslash⟩ | ⟨e, hx, he⟩ := h x
      · rw [hx]
        exact .plain (char x) hquote hslash ih
      · have hall := WritesBody.escape e ih
        rw [he] at hall
        rw [hx]
        exact hall

/-- What writes a string between quotes is read as the string. -/
theorem stringBody?_of_writes {quote : Char} (hq : isQuote quote = true) {text written : List Char}
    (h : WritesBody quote text written) (p : Place) (rest : List Char) :
    stringBody? quote (located p (written ++ quote :: rest)) =
      some (text, located (p.after (written ++ [quote])) rest) := by
  have hslash : '\\' ≠ quote := by
    rintro rfl
    cases hq
  induction h generalizing p with
  | nil =>
      show stringBody? quote (⟨quote, p⟩ :: located (p.next quote) rest) = _
      rw [stringBody?.eq_def]
      exact if_pos rfl
  | plain c hc hb _ ih =>
      show stringBody? quote (⟨c, p⟩ :: located (p.next c) (_ ++ quote :: rest)) = _
      rw [stringBody?.eq_def]
      dsimp only
      rw [if_neg hc, if_neg hb, ih]
      rfl
  | escape c _ ih =>
      show stringBody? quote (⟨'\\', p⟩ :: ⟨c, p.next '\\'⟩ ::
        located ((p.next '\\').next c) (_ ++ quote :: rest)) = _
      rw [stringBody?.eq_def]
      dsimp only
      rw [if_neg hslash, if_pos rfl, ih]
      rfl

/-! ## 3. Tokens -/

/-- A name: a letter or an underscore, and then letters, digits and underscores. -/
def IsName (name : List Char) : Prop :=
  ∃ c cs, name = c :: cs ∧ isNameStart c = true ∧ ∀ x ∈ cs, isNamePart x = true

/-- The characters write a token of the kind. -/
inductive Writes : Kind → List Char → Prop
  | punctuation {c : Char} {kind : Kind} (h : punctuation? c = some kind) : Writes kind [c]
  | string {quote : Char} {text written : List Char} (hq : isQuote quote = true)
      (h : WritesBody quote text written) :
      Writes (.string (String.ofList text)) (quote :: (written ++ [quote]))
  | word {name : List Char} (h : IsName name) : Writes (word name) name
  | integer {written : String} (h : Decimal.Numeral written) :
      Writes (.integer written) written.toList

/-- With the character, a token of the kind could go on. -/
def Kind.goesOn : Kind → Char → Bool
  | .null | .ident _ => isNamePart
  | .integer _ => Char.isDigit
  | _ => fun _ => false

/-- A name that is no word of the language is a name. -/
theorem word_of_ne_null {name : String} (h : name ≠ "null") : word name.toList = .ident name := by
  unfold word
  rw [String.ofList_toList]
  exact if_neg h

theorem goesOn_word (name : List Char) : (word name).goesOn = isNamePart := by
  unfold word
  dsimp only
  split
  · rfl
  · rfl

theorem mem_of_punctuation? {kind : Kind} (h : punctuation? c = some kind) :
    c ∈ [',', ';', '(', ')', '[', ']'] := by
  unfold punctuation? at h
  repeat' split at h
  all_goals first
    | (cases h; done)
    | (subst c; decide)

/-- A class without the marks of punctuation has no token of one character. -/
theorem punctuation?_eq_none {P : Char → Bool}
    (hP : [',', ';', '(', ')', '[', ']'].any P = false) (hc : P c = true) :
    punctuation? c = none := by
  cases h : punctuation? c with
  | none => rfl
  | some kind =>
      exact absurd hc (List.any_eq_false.1 hP c (mem_of_punctuation? h))

theorem isNameStart_of_isDigit (h : c.isDigit = true) : isNameStart c = false := by
  have hunderscore : c ≠ '_' := by
    rintro rfl
    cases h
  rw [isNameStart, Decimal.isAlpha_of_isDigit h, decide_eq_false hunderscore]
  rfl

/-- A digit, or a minus sign with digits behind it, starts an integer. -/
theorem kind?_of_number (hc : c.isDigit = true ∨ c = '-' ∧ cs ≠ [])
    (hcs : ∀ x ∈ cs, x.isDigit = true) (hrest : StopsAt Char.isDigit rest) (p : Place) :
    kind? c (located p (cs ++ rest)) =
      some (.integer (String.ofList (c :: cs)), located (p.after cs) rest) := by
  have hnumber : (c.isDigit || c == '-') = true := by
    rcases hc with hc | ⟨rfl, -⟩
    · rw [hc]
      rfl
    · rfl
  have hnone : punctuation? c = none :=
    punctuation?_eq_none (P := fun x => x.isDigit || x == '-') (by decide) hnumber
  have hquote : ¬ isQuote c = true := by
    intro hq
    rcases (by simpa [isQuote] using hq) with rfl | rfl
    · cases hnumber
    · cases hnumber
  have hname : ¬ isNameStart c = true := by
    rcases hc with hc | ⟨rfl, -⟩
    · rw [isNameStart_of_isDigit hc]
      exact Bool.false_ne_true
    · decide
  have hstart : (c.isDigit || (c = '-' && !cs.isEmpty)) = true := by
    rcases hc with hc | ⟨rfl, hne⟩
    · rw [hc]
      rfl
    · simpa using hne
  unfold kind?
  rw [hnone]
  dsimp only
  rw [if_neg hquote, if_neg hname, takeWhile_located hcs hrest, dropWhile_located hcs hrest,
    chars_located, if_pos hstart]

/-- From its first character on, what writes a token is read as the token, if the text behind it does
    not go on with it. -/
theorem lexeme?_of_writes {kind : Kind} (h : Writes kind cs) (hrest : StopsAt kind.goesOn rest)
    (p : Place) :
    lexeme? (located p (cs ++ rest)) = some (⟨kind, p⟩, located (p.after cs) rest) := by
  cases h with
  | @punctuation c _ h =>
      show (kind? c (located (p.next c) rest)).map _ = _
      unfold kind?
      rw [h]
      rfl
  | @string quote text written hq h =>
      have hbody := stringBody?_of_writes hq h (p.next quote) rest
      have hnone : punctuation? quote = none := punctuation?_eq_none (P := isQuote) (by decide) hq
      show (kind? quote (located (p.next quote) ((written ++ [quote]) ++ rest))).map _ = _
      unfold kind?
      rw [hnone, List.append_assoc, List.singleton_append]
      dsimp only
      rw [if_pos hq, hbody]
      rfl
  | word h =>
      obtain ⟨c, cs, rfl, hc, hcs⟩ := h
      rw [goesOn_word] at hrest
      have hnone : punctuation? c = none := punctuation?_eq_none (P := isNameStart) (by decide) hc
      have hquote : ¬ isQuote c = true := by
        intro hq
        rcases (by simpa [isQuote] using hq) with rfl | rfl
        · cases hc
        · cases hc
      show (kind? c (located (p.next c) (cs ++ rest))).map _ = _
      unfold kind?
      rw [hnone]
      dsimp only
      rw [if_neg hquote, if_pos hc, takeWhile_located hcs hrest, dropWhile_located hcs hrest,
        chars_located]
      rfl
  | @integer written h =>
      obtain ⟨ds, ⟨hne, hall⟩, htext | htext⟩ := h
      · cases ds with
        | nil => exact absurd rfl hne
        | cons c ds =>
            obtain ⟨hc, hds⟩ := List.forall_mem_cons.1 hall
            rw [htext, ← String.ofList_toList (s := written), htext]
            show (kind? c (located (p.next c) (ds ++ rest))).map _ = _
            rw [kind?_of_number (Or.inl hc) hds hrest]
            rfl
      · rw [htext, ← String.ofList_toList (s := written), htext]
        show (kind? '-' (located (p.next '-') (ds ++ rest))).map _ = _
        rw [kind?_of_number (Or.inr ⟨rfl, hne⟩) hall hrest]
        rfl

/-- A character that separates tokens starts none. -/
theorem kind?_eq_none_of_trivia (h : isSpace c = true ∨ c = '#') (r : List Located) :
    kind? c r = none := by
  have hc : c = ' ' ∨ c = '\t' ∨ c = '\r' ∨ c = '\n' ∨ c = '#' := by
    simpa [isSpace, or_assoc] using h
  rcases hc with rfl | rfl | rfl | rfl | rfl <;> rfl

/-- In front of a token there is nothing to read over. -/
theorem skipTrivia_of_lexeme? {s : List Located} {o : Token × List Located}
    (h : lexeme? s = some o) : skipTrivia false s = s := by
  cases s with
  | nil => rfl
  | cons x r =>
      have hx : ¬ (isSpace x.char = true ∨ x.char = '#') := by
        intro hx
        rw [lexeme?, kind?_eq_none_of_trivia hx] at h
        cases h
      obtain ⟨hspace, hhash⟩ := not_or.1 hx
      rw [skipTrivia, if_neg Bool.false_ne_true, if_neg hspace, if_neg hhash]

/-! ## 4. Texts -/

/-- The text that starts at the place is made up of what writes these tokens, with spaces and comments
    among them. -/
inductive Cuts : Place → List Char → List Token → Prop
  | stop (p : Place) : Cuts p [] []
  | space {p : Place} {c : Char} {cs : List Char} {ts : List Token} (hc : isSpace c = true)
      (h : Cuts (p.next c) cs ts) : Cuts p (c :: cs) ts
  /-- A comment goes up to the end of its line, or of the text. -/
  | comment {p : Place} {body rest : List Char} {ts : List Token}
      (hbody : ∀ c ∈ body, isLineEnd c = false) (hrest : StopsAt (!isLineEnd ·) rest)
      (h : Cuts (p.after ('#' :: body)) rest ts) : Cuts p ('#' :: (body ++ rest)) ts
  | token {p : Place} {cs rest : List Char} {kind : Kind} {ts : List Token} (hw : Writes kind cs)
      (hrest : StopsAt kind.goesOn rest) (h : Cuts (p.after cs) rest ts) :
      Cuts p (cs ++ rest) (⟨kind, p⟩ :: ts)

theorem isSpace_of_isLineEnd {c : Char} (h : isLineEnd c = true) : isSpace c = true := by
  rcases (by simpa [isLineEnd] using h) with rfl | rfl
  · rfl
  · rfl

/-- A comment is read over up to its end. -/
theorem skipTrivia_of_comment (hall : ∀ x ∈ cs, isLineEnd x = false)
    (hrest : StopsAt (!isLineEnd ·) rest) (p : Place) :
    skipTrivia true (located p (cs ++ rest)) = skipTrivia false (located (p.after cs) rest) := by
  induction cs generalizing p with
  | nil =>
      cases rest with
      | nil => rfl
      | cons c rest =>
          have hend : isLineEnd c = true := by simpa using hrest c rfl
          have hspace := isSpace_of_isLineEnd hend
          show skipTrivia true (⟨c, p⟩ :: located (p.next c) rest) =
            skipTrivia false (⟨c, p⟩ :: located (p.next c) rest)
          rw [skipTrivia, skipTrivia, if_pos rfl, if_neg Bool.false_ne_true, if_pos hspace, hend]
          rfl
  | cons c cs ih =>
      obtain ⟨hc, hcs⟩ := List.forall_mem_cons.1 hall
      show skipTrivia true (⟨c, p⟩ :: located (p.next c) (cs ++ rest)) = _
      rw [skipTrivia, if_pos rfl, hc]
      exact ih hcs (p.next c)

theorem scanFrom_eq (stop : Place) (s : List Located) :
    scanFrom stop s = match skipTrivia false s with
      | [] => .ok [⟨.eof, stop⟩]
      | x :: r =>
        match lexeme? (x :: r) with
        | none => .error (refuse x)
        | some (t, rest) => (scanFrom stop rest).map (t :: ·) := by
  rw [scanFrom.eq_def]
  split
  · next h => rw [h]
  · next x r h =>
      rw [h]
      dsimp only
      split
      · next h' => rw [h']
      · next t rest h' =>
          rw [h']
          rfl

/-- **A text that is made up of tokens is cut into them**, each at its place. -/
theorem scanFrom_of_cuts {ts : List Token} (h : Cuts p cs ts) (stop : Place) :
    scanFrom stop (located p cs) = .ok (ts ++ [⟨.eof, stop⟩]) := by
  induction h with
  | stop => rw [scanFrom_eq]; rfl
  | @space p c cs ts hc _ ih =>
      have hskip : skipTrivia false (located p (c :: cs)) =
          skipTrivia false (located (p.next c) cs) := by
        show skipTrivia false (⟨c, p⟩ :: located (p.next c) cs) = _
        rw [skipTrivia, if_neg Bool.false_ne_true, if_pos hc]
      rw [scanFrom_eq, hskip, ← scanFrom_eq, ih]
  | @comment p body rest ts hbody hrest _ ih =>
      have hskip : skipTrivia false (located p ('#' :: (body ++ rest))) =
          skipTrivia false (located (p.after ('#' :: body)) rest) :=
        skipTrivia_of_comment hbody hrest (p.next '#')
      rw [scanFrom_eq, hskip, ← scanFrom_eq, ih]
  | @token p cs rest kind ts hw hrest _ ih =>
      have hlex := lexeme?_of_writes hw hrest p
      rw [scanFrom_eq, skipTrivia_of_lexeme? hlex]
      cases hs : located p (cs ++ rest) with
      | nil =>
          rw [hs] at hlex
          cases hlex
      | cons x r =>
          rw [hs] at hlex
          dsimp only
          rw [hlex]
          dsimp only
          rw [ih]
          rfl

/-! ## 5. Texts in front of other texts -/

/-- In front of every text that does not go on with a name, the characters are cut into tokens that
    have the property. -/
def CutsInto (D : List Token → Prop) (cs : List Char) : Prop :=
  ∀ (p : Place) (rest : List Char) (ts : List Token), StopsAt isNamePart rest →
    Cuts (p.after cs) rest ts → ∃ us, D us ∧ Cuts p (cs ++ rest) (us ++ ts)

section

variable {D D' : List Token → Prop} {cs' : List Char}

theorem CutsInto.imp (h : CutsInto D cs) (hD : ∀ us, D us → D' us) : CutsInto D' cs := by
  intro p rest ts hrest hs
  obtain ⟨us, hus, hcut⟩ := h p rest ts hrest hs
  exact ⟨us, hD us hus, hcut⟩

theorem cutsInto_nil : CutsInto (· = []) [] := fun _ _ _ _ hs => ⟨[], rfl, hs⟩

/-- Spaces in front of a text are no part of a token. -/
theorem CutsInto.behind {gap : List Char} (hgap : ∀ c ∈ gap, isSpace c = true)
    (h : CutsInto D cs) : CutsInto D (gap ++ cs) := by
  induction gap with
  | nil => exact h
  | cons c gap ih =>
      obtain ⟨hc, hgap⟩ := List.forall_mem_cons.1 hgap
      intro p rest ts hrest hs
      obtain ⟨us, hus, hcut⟩ := ih hgap (p.next c) rest ts hrest hs
      exact ⟨us, hus, .space hc hcut⟩

/-- What does not go on with a name goes on with no token. -/
theorem stopsAt_goesOn {rest : List Char} (h : StopsAt isNamePart rest) (kind : Kind) :
    StopsAt kind.goesOn rest := by
  intro c hc
  have hname := h c hc
  cases kind with
  | null => exact hname
  | ident name => exact hname
  | integer written =>
      show c.isDigit = false
      simp only [isNamePart, Char.isAlphanum, Bool.or_eq_false_iff] at hname
      exact hname.1.2
  | _ => rfl

theorem cutsInto_token {kind : Kind} (h : Writes kind cs) :
    CutsInto (fun us => ∃ p, us = [⟨kind, p⟩]) cs := by
  intro p rest ts hrest hs
  exact ⟨[⟨kind, p⟩], ⟨p, rfl⟩, .token h (stopsAt_goesOn hrest kind) hs⟩

theorem stopsAt_mark {c : Char} {kind : Kind} (h : punctuation? c = some kind) (rest : List Char) :
    StopsAt isNamePart (c :: rest) := by
  intro x hx
  obtain rfl : c = x := Option.some.inj hx
  cases hname : isNamePart c with
  | false => rfl
  | true =>
      have hnone : punctuation? c = none := punctuation?_eq_none (P := isNamePart) (by decide) hname
      rw [hnone] at h
      cases h

theorem goesOn_of_punctuation? {c : Char} {kind : Kind} (h : punctuation? c = some kind) :
    kind.goesOn = fun _ => false := by
  unfold punctuation? at h
  repeat' split at h
  all_goals (cases h; try rfl)

/-- Two texts with a mark of punctuation between them. -/
theorem CutsInto.separate (h : CutsInto D cs) {c : Char} {kind : Kind}
    (hc : punctuation? c = some kind) (h' : CutsInto D' cs') :
    CutsInto (fun us => ∃ p vs ws, us = vs ++ ⟨kind, p⟩ :: ws ∧ D vs ∧ D' ws)
      (cs ++ c :: cs') := by
  intro p rest ts hrest hs
  rw [Place.after_append] at hs
  obtain ⟨ws, hws, hcut'⟩ := h' ((p.after cs).next c) rest ts hrest hs
  have hmark : Cuts (p.after cs) (c :: (cs' ++ rest)) (⟨kind, p.after cs⟩ :: (ws ++ ts)) :=
    .token (.punctuation hc) (fun _ _ => by rw [goesOn_of_punctuation? hc]) hcut'
  obtain ⟨vs, hvs, hcut⟩ := h p (c :: (cs' ++ rest)) _ (stopsAt_mark hc _) hmark
  refine ⟨vs ++ ⟨kind, p.after cs⟩ :: ws, ⟨p.after cs, vs, ws, rfl, hvs, hws⟩, ?_⟩
  rw [List.append_assoc, List.append_assoc]
  exact hcut

/-- Texts with the same mark of punctuation between them, and spaces behind the marks. -/
theorem cutsInto_intercalate {α : Type} {D : α → List Token → Prop}
    {E : List α → List Token → Prop} {text : α → List Char} {c : Char} {kind : Kind}
    {gap : List Char} (hc : punctuation? c = some kind) (hgap : ∀ x ∈ gap, isSpace x = true)
    (hlast : ∀ a us, D a us → E [a] us)
    (hnext : ∀ a as p us vs, D a us → E as vs → E (a :: as) (us ++ ⟨kind, p⟩ :: vs)) :
    ∀ {as : List α}, as ≠ [] → (∀ a ∈ as, CutsInto (D a) (text a)) →
      CutsInto (E as) ((c :: gap).intercalate (as.map text))
  | [], hne, _ => absurd rfl hne
  | [a], _, h => by
      rw [List.map_singleton, List.intercalate_singleton]
      exact (h a List.mem_cons_self).imp (hlast a)
  | a :: b :: as, _, h => by
      obtain ⟨ha, hs⟩ := List.forall_mem_cons.1 h
      have hrest := cutsInto_intercalate hc hgap hlast hnext (List.cons_ne_nil b as) hs
      have htext : (c :: gap).intercalate ((a :: b :: as).map text) =
          text a ++ c :: (gap ++ (c :: gap).intercalate ((b :: as).map text)) := by
        rw [List.map_cons, List.map_cons, List.intercalate_cons_cons, List.append_assoc]
        rfl
      rw [htext]
      refine (ha.separate hc (hrest.behind hgap)).imp ?_
      rintro _ ⟨p, us, vs, rfl, hus, hvs⟩
      exact hnext a (b :: as) p us vs hus hvs

end

end CallScript.Token
