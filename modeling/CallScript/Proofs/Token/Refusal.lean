import CallScript.Proofs.Token.Layout
import CallScript.Proofs.Token.Starts

/-!
# Texts that are refused

A text that cannot be cut into tokens is refused at one character (`Token.Refuses`): a quote whose string
is never closed, or a character that no token starts with. What is in front of it is cut into tokens, and a
token would be read in its place, so it stands neither in a string nor in a comment.

Reading is turned around for that: what was read as a token writes it, and what was read over is filler.

* `exists_writes_of_lexeme?` and `exists_gap_of_skipTrivia`: the texts behind one step of reading;
* `exists_leading_of_refused`: the part in front of the refused character;
* `scan_ok_or_refused`: the result for scripts.
-/

namespace CallScript.Token

variable {p stop : Place} {c : Char} {cs rest : List Char}

/-! ## 1. What was read as a token -/

section

variable {P : Char → Bool}

theorem StopsAt.of_append {tail : List Char} (h : StopsAt P (rest ++ tail)) : StopsAt P rest := by
  intro c hc
  cases rest with
  | nil => cases hc
  | cons d rest => exact h c hc

theorem stopsAt_dropWhile (P : Char → Bool) (cs : List Char) : StopsAt P (cs.dropWhile P) := by
  intro c hc
  have hhead := List.head?_dropWhile_not P cs
  rw [Option.mem_def.1 hc] at hhead
  exact hhead

/-- Where no character of a class was taken, the text does not start with one. -/
theorem stopsAt_of_takeWhile (h : (located p cs).takeWhile (P ·.char) = []) : StopsAt P cs := by
  intro c hc
  cases cs with
  | nil => cases hc
  | cons d cs =>
      obtain rfl : d = c := Option.some.inj hc
      refine (Bool.not_eq_true _).mp fun hd => ?_
      rw [located, List.takeWhile_cons] at h
      dsimp only at h
      rw [if_pos hd] at h
      cases h

/-- A run of characters of a class, and what follows it. -/
theorem exists_run (P : Char → Bool) (p : Place) (cs : List Char) :
    ∃ run after, cs = run ++ after ∧ (∀ c ∈ run, P c = true) ∧ StopsAt P after ∧
      (located p cs).takeWhile (P ·.char) = located p run ∧
      (located p cs).dropWhile (P ·.char) = located (p.after run) after := by
  have hall : ∀ c ∈ cs.takeWhile P, P c = true := List.all_eq_true.1 List.all_takeWhile
  have hstop := stopsAt_dropWhile P cs
  have hsplit := List.takeWhile_append_dropWhile (p := P) (l := cs)
  refine ⟨cs.takeWhile P, cs.dropWhile P, hsplit.symm, hall, hstop, ?_, ?_⟩
  · rw [← takeWhile_located hall hstop p, hsplit]
  · rw [← dropWhile_located hall hstop p, hsplit]

end

/-- What was read as a string up to its closing quote writes the string. -/
theorem exists_writes_of_stringBody? {quote : Char} {s left : List Located} {text : List Char}
    (h : stringBody? quote s = some (text, left)) (hs : s = located p cs) :
    ∃ written after, cs = written ++ quote :: after ∧ WritesBody quote text written ∧
      left = located (p.after (written ++ [quote])) after := by
  fun_induction stringBody? quote s generalizing p cs text with
  | case1 => cases h
  | case2 x r hx =>
      cases cs with
      | nil => cases hs
      | cons c cs =>
          cases hs
          cases h
          obtain rfl : c = quote := hx
          exact ⟨[], cs, rfl, .nil, rfl⟩
  | case3 => cases h
  | case4 x hx hslash y r ih =>
      obtain ⟨⟨t, u⟩, h', e⟩ := Option.map_eq_some_iff.1 h
      cases e
      cases cs with
      | nil => cases hs
      | cons c cs =>
          cases cs with
          | nil => cases hs
          | cons d cs =>
              cases hs
              obtain rfl : c = '\\' := hslash
              obtain ⟨written, after, rfl, hw, rfl⟩ := ih h' rfl
              exact ⟨'\\' :: d :: written, after, rfl, .escape d hw, rfl⟩
  | case5 x r hx hslash ih =>
      obtain ⟨⟨t, u⟩, h', e⟩ := Option.map_eq_some_iff.1 h
      cases e
      cases cs with
      | nil => cases hs
      | cons c cs =>
          cases hs
          obtain ⟨written, after, rfl, hw, rfl⟩ := ih h' rfl
          exact ⟨c :: written, after, rfl, .plain c hx hslash hw, rfl⟩

/-- What starts as an integer, with digits behind it, writes the integer. -/
theorem writes_number (hc : (c.isDigit || (c = '-' && !cs.isEmpty)) = true)
    (hcs : ∀ x ∈ cs, x.isDigit = true) :
    Writes (.integer (String.ofList (c :: cs))) (c :: cs) := by
  have hnumeral : Decimal.Numeral (String.ofList (c :: cs)) := by
    rw [Decimal.Numeral, String.toList_ofList]
    rcases Bool.or_eq_true_iff.1 hc with hc | hc
    · exact ⟨c :: cs, ⟨List.cons_ne_nil _ _, List.forall_mem_cons.2 ⟨hc, hcs⟩⟩, Or.inl rfl⟩
    · obtain ⟨hminus, hne⟩ := Bool.and_eq_true_iff.1 hc
      obtain rfl := of_decide_eq_true hminus
      exact ⟨cs, ⟨by simpa using hne, hcs⟩, Or.inr rfl⟩
  have hwrites := Writes.integer hnumeral
  rw [String.toList_ofList] at hwrites
  exact hwrites

/-- What was read as a token from its first character on writes it, and what follows does not go on with
    it. -/
theorem exists_writes_of_kind? {kind : Kind} {left : List Located}
    (h : kind? c (located (p.next c) cs) = some (kind, left)) :
    ∃ written after, c :: cs = written ++ after ∧ Writes kind written ∧
      StopsAt kind.goesOn after ∧ left = located (p.after written) after := by
  unfold kind? at h
  split at h
  · next k hk =>
    cases h
    refine ⟨[c], cs, rfl, .punctuation hk, fun _ _ => ?_, rfl⟩
    rw [goesOn_of_punctuation? hk]
  · split at h
    · next hq =>
      obtain ⟨⟨text, u⟩, hbody, e⟩ := Option.map_eq_some_iff.1 h
      cases e
      obtain ⟨written, after, rfl, hw, rfl⟩ := exists_writes_of_stringBody? hbody rfl
      refine ⟨c :: (written ++ [c]), after, ?_, .string hq hw, fun _ _ => rfl, rfl⟩
      rw [List.cons_append, List.append_assoc]
      rfl
    · split at h
      · next hname =>
        obtain ⟨run, after, rfl, hall, hstop, htake, hdrop⟩ := exists_run isNamePart (p.next c) cs
        rw [htake, hdrop, chars_located] at h
        cases h
        refine ⟨c :: run, after, rfl, .word ⟨c, run, rfl, hname, hall⟩, ?_, rfl⟩
        rw [goesOn_word]
        exact hstop
      · obtain ⟨run, after, rfl, hall, hstop, htake, hdrop⟩ := exists_run Char.isDigit (p.next c) cs
        rw [htake, hdrop, chars_located] at h
        dsimp only at h
        split at h
        · next hnumber =>
          cases h
          exact ⟨c :: run, after, rfl, writes_number hnumber hall, hstop, rfl⟩
        · cases h

/-- **What was read as a token writes it**, and what follows does not go on with it. -/
theorem exists_writes_of_lexeme? {t : Token} {left : List Located}
    (h : lexeme? (located p cs) = some (t, left)) :
    ∃ kind written after, t = ⟨kind, p⟩ ∧ cs = written ++ after ∧ Writes kind written ∧
      StopsAt kind.goesOn after ∧ left = located (p.after written) after := by
  cases cs with
  | nil => cases h
  | cons c cs =>
      obtain ⟨⟨kind, u⟩, hkind, e⟩ := Option.map_eq_some_iff.1 h
      cases e
      obtain ⟨written, after, hsplit, hw, hstop, hleft⟩ := exists_writes_of_kind? hkind
      exact ⟨kind, written, after, rfl, hsplit, hw, hstop, hleft⟩

/-! ## 2. What was read over -/

/-- **What was read over in front of a text is filler**; in a comment, it is the rest of the comment with the
    line end that ends it, and filler behind that. -/
theorem exists_gap_of_skipTrivia {x : Located} {r : List Located} (cs : List Char) (p : Place) :
    (skipTrivia false (located p cs) = x :: r →
      ∃ gap after, cs = gapChars gap ++ after ∧
        x :: r = located (p.after (gapChars gap)) after) ∧
    (skipTrivia true (located p cs) = x :: r →
      ∃ body stop gap after, (∀ c ∈ body, isLineEnd c = false) ∧ isLineEnd stop = true ∧
        cs = body ++ stop :: (gapChars gap ++ after) ∧
        x :: r = located (p.after (body ++ stop :: gapChars gap)) after) := by
  induction cs generalizing p with
  | nil => exact ⟨nofun, nofun⟩
  | cons c cs ih =>
      obtain ⟨houtside, hinside⟩ := ih (p.next c)
      refine ⟨fun h => ?_, fun h => ?_⟩
      · have h : skipTrivia false (⟨c, p⟩ :: located (p.next c) cs) = x :: r := h
        rw [skipTrivia, if_neg Bool.false_ne_true] at h
        split at h
        · next hspace =>
          obtain ⟨gap, after, rfl, hr⟩ := houtside h
          exact ⟨.space c hspace :: gap, after, rfl, hr⟩
        · split at h
          · next hhash =>
            obtain rfl : c = '#' := hhash
            obtain ⟨body, stop, gap, after, hbody, hstop, rfl, hr⟩ := hinside h
            refine ⟨.comment body stop hbody hstop :: gap, after, ?_, ?_⟩
            · simp [gapChars, Filler.chars]
            · rw [hr]
              simp [gapChars, Filler.chars, Place.after]
          · exact ⟨[], c :: cs, rfl, h.symm⟩
      · have h : skipTrivia true (⟨c, p⟩ :: located (p.next c) cs) = x :: r := h
        rw [skipTrivia, if_pos rfl] at h
        cases hc : isLineEnd c with
        | false =>
            rw [hc] at h
            obtain ⟨body, stop, gap, after, hbody, hstop, rfl, hr⟩ := hinside h
            exact ⟨c :: body, stop, gap, after, List.forall_mem_cons.2 ⟨hc, hbody⟩, hstop, rfl, hr⟩
        | true =>
            rw [hc] at h
            obtain ⟨gap, after, rfl, hr⟩ := houtside h
            exact ⟨[], c, gap, after, List.forall_mem_nil _, hc, rfl, hr⟩

/-- What is left when separators were read over does not start with one. -/
theorem not_trivia_of_skipTrivia {comment : Bool} {s : List Located} {x : Located}
    {r : List Located} (h : skipTrivia comment s = x :: r) :
    isSpace x.char = false ∧ x.char ≠ '#' := by
  induction s generalizing comment with
  | nil => cases h
  | cons y s ih =>
      rw [skipTrivia] at h
      split at h
      · exact ih h
      · split at h
        · exact ih h
        · next hspace =>
          split at h
          · exact ih h
          · next hhash =>
            cases h
            exact ⟨(Bool.not_eq_true _).mp hspace, hhash⟩

/-! ## 3. The part in front of the refused character -/

/-- The text is cut into the tokens, whatever follows it that does not go on with a name; the tokens of what
    follows come behind them. -/
def Leads (p : Place) (cs : List Char) (ts : List Token) : Prop :=
  ∀ tail us, StopsAt isNamePart tail → Cuts (p.after cs) tail us → Cuts p (cs ++ tail) (ts ++ us)

theorem leads_gap (gap : List Filler) (p : Place) : Leads p (gapChars gap) [] :=
  fun _ _ _ hcut => cuts_gap gap hcut

/-- Filler and a token in front of a text that leads. -/
theorem Leads.behind {gap : List Filler} {kind : Kind} {written : List Char} {ts : List Token}
    (hw : Writes kind written) (hcs : StopsAt kind.goesOn cs)
    (h : Leads ((p.after (gapChars gap)).after written) cs ts) :
    Leads p (gapChars gap ++ (written ++ cs)) (⟨kind, p.after (gapChars gap)⟩ :: ts) := by
  intro tail us htail hcut
  rw [Place.after_append, Place.after_append] at hcut
  have hstop : StopsAt kind.goesOn (cs ++ tail) := by
    cases cs with
    | nil => exact stopsAt_goesOn htail kind
    | cons c cs => exact fun d hd => hcs d hd
  rw [List.append_assoc, List.append_assoc]
  exact cuts_gap gap (.token hw hstop (h tail us htail hcut))

/-- **A text that is refused has a part in front of the refused character** that is cut into tokens. The
    induction is on the tokens that were read. -/
theorem exists_leading_of_refused {s : List Located} {e : LexError}
    (h : scanFrom stop s = .error e) (hs : s = located p cs) :
    ∃ before c rest ts, cs = before ++ c :: rest ∧ Leads p before ts ∧
      isSpace c = false ∧ c ≠ '#' ∧
      lexeme? (located (p.after before) (c :: rest)) = none ∧ e = refuse ⟨c, p.after before⟩ := by
  fun_induction scanFrom stop s generalizing p cs with
  | case1 => cases h
  | case2 s x r hskip hlex =>
      cases h
      subst hs
      obtain ⟨hspace, hhash⟩ := not_trivia_of_skipTrivia hskip
      obtain ⟨gap, after, rfl, hr⟩ := (exists_gap_of_skipTrivia cs p).1 hskip
      cases after with
      | nil => cases hr
      | cons c rest =>
          obtain ⟨rfl, -⟩ := List.cons.inj hr
          rw [hr] at hlex
          exact ⟨gapChars gap, c, rest, [], rfl, leads_gap gap p, hspace, hhash, hlex, rfl⟩
  | case3 s x r hskip t left hlex ih =>
      subst hs
      obtain ⟨gap, after, rfl, hr⟩ := (exists_gap_of_skipTrivia cs p).1 hskip
      rw [hr] at hlex
      obtain ⟨kind, written, behind, rfl, rfl, hw, hstop, rfl⟩ := exists_writes_of_lexeme? hlex
      have hrest : scanFrom stop (located ((p.after (gapChars gap)).after written) behind) =
          .error e := by
        cases hrest : scanFrom stop (located ((p.after (gapChars gap)).after written) behind) with
        | ok us =>
            rw [hrest] at h
            cases h
        | error e' =>
            rw [hrest] at h
            cases h
            rfl
      obtain ⟨before, c, rest, ts, rfl, hleads, hspace, hhash, hnone, he⟩ := ih hrest rfl
      have hplace : p.after (gapChars gap ++ (written ++ before)) =
          ((p.after (gapChars gap)).after written).after before := by
        rw [Place.after_append, Place.after_append]
      refine ⟨gapChars gap ++ (written ++ before), c, rest, _, ?_,
        hleads.behind hw hstop.of_append, hspace, hhash, ?_, ?_⟩
      · rw [List.append_assoc, List.append_assoc]
      · rw [hplace]
        exact hnone
      · rw [hplace]
        exact he

/-! ## 4. The refused character -/

/-- Behind an opening quote of this kind, the text closes the string: up to a quote it is made up of
    characters other than quotes and backslashes, and of backslashes with the characters that they
    escape. -/
def Closes (quote : Char) (cs : List Char) : Prop :=
  ∃ text written rest, WritesBody quote text written ∧ cs = written ++ quote :: rest

/-- No token starts with the character, in front of the text, and it does not separate tokens. -/
structure StartsNone (c : Char) (rest : List Char) : Prop where
  quote : c ≠ '\x27' ∧ c ≠ '\x22'
  mark : c ∉ ['(', ')', '[', ']', ',', ';', '#']
  letter : c.isAlpha = false
  digit : c.isDigit = false
  underscore : c ≠ '_'
  space : c ∉ [' ', '\t', '\r', '\n']
  /-- A minus sign without a digit. -/
  minus : c = '-' → StopsAt Char.isDigit rest

/-- What a text is refused with at a character at the place, in front of the text: a string that is not
    closed, or a character that starts no token. -/
inductive Refuses (p : Place) (c : Char) (rest : List Char) : LexError → Prop
  | unterminated (hq : c = '\x27' ∨ c = '\x22') (h : ¬ Closes c rest) :
      Refuses p c rest (.unterminatedString p)
  | unexpected (h : StartsNone c rest) : Refuses p c rest (.unexpectedCharacter p c)

theorem not_closes_of_stringBody? {quote : Char} (hq : isQuote quote = true)
    (h : stringBody? quote (located p cs) = none) : ¬ Closes quote cs := by
  rintro ⟨text, written, rest, hw, rfl⟩
  rw [stringBody?_of_writes hq hw] at h
  cases h

theorem not_mem_of_punctuation? (h : punctuation? c = none) :
    c ∉ [',', ';', '(', ')', '[', ']'] := by
  intro hc
  simp only [List.mem_cons, List.not_mem_nil, or_false] at hc
  rcases hc with rfl | rfl | rfl | rfl | rfl | rfl <;> cases h

/-- A character that is in none of the classes starts no token. -/
theorem startsNone_of_classes (hspace : isSpace c = false) (hhash : c ≠ '#')
    (hmark : punctuation? c = none) (hquote : isQuote c = false) (hname : isNameStart c = false)
    (hdigit : c.isDigit = false)
    (hminus : c = '-' → StopsAt Char.isDigit rest) : StartsNone c rest := by
  have hmark := not_mem_of_punctuation? hmark
  simp only [isNameStart, Bool.or_eq_false_iff, decide_eq_false_iff_not] at hname
  refine ⟨by simpa [isQuote] using hquote, ?_, hname.1, hdigit, hname.2,
    by simpa [isSpace, and_assoc] using hspace, hminus⟩
  simp only [List.mem_cons, List.not_mem_nil, or_false, not_or] at hmark ⊢
  tauto

/-- **Where no token is read, there is a quote that is not closed, or a character that starts no token.** -/
theorem refuses_of_lexeme? (hspace : isSpace c = false) (hhash : c ≠ '#')
    (h : lexeme? (located p (c :: rest)) = none) : Refuses p c rest (refuse ⟨c, p⟩) := by
  have h : kind? c (located (p.next c) rest) = none := Option.map_eq_none_iff.1 h
  unfold kind? at h
  split at h
  · cases h
  · next hmark =>
    split at h
    · next hquote =>
      have hnone := not_closes_of_stringBody? hquote (Option.map_eq_none_iff.1 h)
      rw [refuse, if_pos hquote]
      exact .unterminated (by simpa [isQuote] using hquote) hnone
    · next hquote =>
      split at h
      · cases h
      · next hname =>
        dsimp only at h
        split at h
        · cases h
        · next hnumber =>
          obtain ⟨hdigit, hminus⟩ := Bool.or_eq_false_iff.1 ((Bool.not_eq_true _).mp hnumber)
          rw [refuse, if_neg hquote]
          refine .unexpected (startsNone_of_classes hspace hhash hmark
            ((Bool.not_eq_true _).mp hquote) ((Bool.not_eq_true _).mp hname) hdigit ?_)
          intro hc
          rw [decide_eq_true hc, Bool.true_and, Bool.not_eq_false', List.isEmpty_iff] at hminus
          exact stopsAt_of_takeWhile (List.map_eq_nil_iff.1 hminus)

/-! ## 5. Scripts -/

/-- The script is refused with the error at the character between the two parts: the part before it is cut
    into tokens, and a semicolon in the place of the character would be one more token. -/
structure RefusedAt (source : String) (file : Option String) (e : LexError) (before : List Char)
    (c : Char) (rest : List Char) : Prop where
  text : source.toList = before ++ c :: rest
  tokens : ∃ ts, scan (String.ofList before) file = .ok (ts ++ [⟨.eof, e.place⟩]) ∧
    scan (String.ofList (before ++ [';'])) file =
      .ok (ts ++ [⟨.semicolon, e.place⟩, ⟨.eof, e.place.next ';'⟩])
  file : e.place.file = file
  line : e.place.line = before.count '\n' + 1
  column : e.place.column = (before.reverse.takeWhile (· ≠ '\n')).length + 1
  cause : Refuses e.place c rest e

/-- A text that leads is cut into its tokens, and with a semicolon behind it there is one token more. -/
theorem Leads.scan {before : List Char} {file : Option String} {ts : List Token}
    (h : Leads ⟨file, 1, 1⟩ before ts) :
    scan (String.ofList before) file = .ok (ts ++ [⟨.eof, (⟨file, 1, 1⟩ : Place).after before⟩]) ∧
      scan (String.ofList (before ++ [';'])) file =
        .ok (ts ++ [⟨.semicolon, (⟨file, 1, 1⟩ : Place).after before⟩,
          ⟨.eof, ((⟨file, 1, 1⟩ : Place).after before).next ';'⟩]) := by
  have hmark : Cuts ((⟨file, 1, 1⟩ : Place).after before) [';']
      [⟨.semicolon, (⟨file, 1, 1⟩ : Place).after before⟩] :=
    @Cuts.token _ [';'] [] _ _ (.punctuation rfl) (fun _ _ => rfl) (.stop _)
  have hend := h [] [] nofun (.stop _)
  have hmore := h [';'] _ (stopsAt_mark rfl []) hmark
  rw [List.append_nil, List.append_nil] at hend
  refine ⟨?_, ?_⟩
  · rw [Token.scan, String.toList_ofList, scanFrom_of_cuts hend]
  · rw [Token.scan, String.toList_ofList, scanFrom_of_cuts hmore, Place.after_concat,
      List.append_assoc]
    rfl

/-- **A script is cut into tokens, or it is refused at its first offending character**: a quote whose string is
    not closed, and nothing else, is reported as that, and any other character that starts no token is
    reported itself. -/
theorem scan_ok_or_refused (source : String) (file : Option String) :
    (∃ ts, scan source file = .ok ts) ∨
      ∃ e before c rest, scan source file = .error e ∧ RefusedAt source file e before c rest := by
  cases h : scan source file with
  | ok ts => exact Or.inl ⟨ts, rfl⟩
  | error e =>
      obtain ⟨before, c, rest, ts, htext, hleads, hspace, hhash, hnone, rfl⟩ :=
        exists_leading_of_refused h rfl
      refine Or.inr ⟨_, before, c, rest, rfl, htext, ⟨ts, ?_⟩, ?_, ?_, ?_, ?_⟩
      · rw [place_refuse]
        exact hleads.scan
      · rw [place_refuse, Place.file_after]
      · rw [place_refuse, Place.line_after, Nat.add_comm]
      · rw [place_refuse, Place.column_after rfl]
      · rw [place_refuse]
        exact refuses_of_lexeme? hspace hhash hnone

end CallScript.Token
