import CallScript.Proofs.Token.Writing

/-!
# Tokens with any layout

A script may be laid out in many ways. Between its tokens stand spaces, line ends and comments
(`Filler`), and a string may stand between quotes of either kind, with its line ends and tabs escaped or
as they are (`Spelling`). A layout is a choice of all that (`Layout`). Only between two tokens something
has to stand.

* `Spelling.writes`: every spelling writes its token;
* `cutsInto_words`: words that are parted are cut into their tokens;
* `scan_layout`: whatever the layout, the text is cut into the tokens that were laid out, and the end mark;
  and all tokens that a script may have can be laid out.
-/

namespace CallScript.Token

variable {p : Place} {rest : List Char} {ts : List Token}

/-! ## 1. Between tokens -/

/-- Something that only separates tokens: a space, or a comment with the line end that ends it. -/
inductive Filler
  | space (c : Char) (hc : isSpace c = true)
  | comment (body : List Char) (stop : Char) (hbody : ∀ c ∈ body, isLineEnd c = false)
      (hstop : isLineEnd stop = true)

namespace Filler

def chars : Filler → List Char
  | .space c _ => [c]
  | .comment body stop _ _ => '#' :: (body ++ [stop])

/-- What separates tokens is no part of a name. -/
theorem stopsAt_chars (f : Filler) (rest : List Char) : StopsAt isNamePart (f.chars ++ rest) := by
  intro x hx
  cases f with
  | space c hc =>
      obtain rfl : c = x := Option.some.inj hx
      have hc : c = ' ' ∨ c = '\t' ∨ c = '\r' ∨ c = '\n' := by simpa [isSpace, or_assoc] using hc
      rcases hc with rfl | rfl | rfl | rfl <;> rfl
  | comment body stop hbody hstop =>
      obtain rfl : '#' = x := Option.some.inj hx
      rfl

/-- In front of a text, it is read over. -/
theorem cuts (f : Filler) (h : Cuts (p.after f.chars) rest ts) : Cuts p (f.chars ++ rest) ts := by
  cases f with
  | space c hc => exact .space hc h
  | comment body stop hbody hstop =>
      -- the line end is not read with the comment, but as a space behind it
      have hend : StopsAt (!isLineEnd ·) (stop :: rest) := by
        intro x hx
        obtain rfl : stop = x := Option.some.inj hx
        exact congrArg not hstop
      have hplace : p.after ('#' :: (body ++ [stop])) = (p.after ('#' :: body)).next stop :=
        Place.after_append p ('#' :: body) [stop]
      have hbehind : Cuts (p.after ('#' :: body)) (stop :: rest) ts :=
        .space (isSpace_of_isLineEnd hstop) (hplace ▸ h)
      have hall := Cuts.comment hbody hend hbehind
      rw [chars, List.cons_append, List.append_assoc]
      exact hall

end Filler

/-- The text of what stands in one place between tokens. -/
def gapChars (gap : List Filler) : List Char := gap.flatMap Filler.chars

theorem cuts_gap (gap : List Filler) (h : Cuts (p.after (gapChars gap)) rest ts) :
    Cuts p (gapChars gap ++ rest) ts := by
  induction gap generalizing p with
  | nil => exact h
  | cons f gap ih =>
      rw [gapChars, List.flatMap_cons, Place.after_append] at h
      rw [gapChars, List.flatMap_cons, List.append_assoc]
      exact f.cuts (ih h)

/-- A name does not go on into a gap, nor over an empty gap into a text that does not go on with it. -/
theorem stopsAt_gap {gap : List Filler} (h : gap ≠ [] ∨ StopsAt isNamePart rest) :
    StopsAt isNamePart (gapChars gap ++ rest) := by
  cases gap with
  | nil => exact h.resolve_left (fun hne => hne rfl)
  | cons f gap =>
      rw [gapChars, List.flatMap_cons, List.append_assoc]
      exact f.stopsAt_chars _

/-! ## 2. Tokens -/

/-- A token, and a choice of how it is written. A string comes with its quotes, and each of its characters
    with a mark that asks for an escape where the character may do without. -/
inductive Spelling
  | mark (c : Char) (kind : Kind) (h : punctuation? c = some kind)
  | null
  | ident (name : String) (h : IsName name.toList) (hne : name ≠ "null")
  | integer (written : String) (h : Decimal.Numeral written)
  | string (quote : Char) (hq : isQuote quote = true) (text : List (Char × Bool))

/-- A character of a string: the quote and the backslash are always escaped, and line feeds, tabs and
    carriage returns if this is asked for. -/
def writeChar (quote c : Char) (escaped : Bool) : List Char :=
  if c = quote ∨ c = '\\' then ['\\', c]
  else if escaped ∧ c = '\n' then ['\\', 'n']
  else if escaped ∧ c = '\t' then ['\\', 't']
  else if escaped ∧ c = '\r' then ['\\', 'r']
  else [c]

namespace Spelling

def kind : Spelling → Kind
  | .mark _ kind _ => kind
  | .null => .null
  | .ident name _ _ => .ident name
  | .integer written _ => .integer written
  | .string _ _ text => .string (String.ofList (text.map Prod.fst))

def chars : Spelling → List Char
  | .mark c _ _ => [c]
  | .null => ['n', 'u', 'l', 'l']
  | .ident name _ _ => name.toList
  | .integer written _ => written.toList
  | .string quote _ text => quote :: (text.flatMap (fun x => writeChar quote x.1 x.2) ++ [quote])

end Spelling

/-- A character is written as itself, or as an escape that stands for it. -/
theorem writeChar_cases {quote : Char} (hq : isQuote quote = true) (c : Char) (escaped : Bool) :
    (writeChar quote c escaped = [c] ∧ c ≠ quote ∧ c ≠ '\\') ∨
      ∃ e, writeChar quote c escaped = ['\\', e] ∧ unescape e = [c] := by
  unfold writeChar
  by_cases hself : c = quote ∨ c = '\\'
  · rw [if_pos hself]
    refine Or.inr ⟨c, rfl, ?_⟩
    rcases hself with rfl | rfl
    · rw [unescape, hq, Bool.or_true]
      exact if_pos rfl
    · rfl
  rw [if_neg hself]
  by_cases hline : escaped ∧ c = '\n'
  · rw [if_pos hline, hline.2]
    exact Or.inr ⟨'n', rfl, rfl⟩
  rw [if_neg hline]
  by_cases htab : escaped ∧ c = '\t'
  · rw [if_pos htab, htab.2]
    exact Or.inr ⟨'t', rfl, rfl⟩
  rw [if_neg htab]
  by_cases hreturn : escaped ∧ c = '\r'
  · rw [if_pos hreturn, hreturn.2]
    exact Or.inr ⟨'r', rfl, rfl⟩
  rw [if_neg hreturn]
  exact Or.inl ⟨rfl, not_or.1 hself⟩

/-- **Every spelling writes its token.** -/
theorem Spelling.writes (s : Spelling) : Writes s.kind s.chars := by
  cases s with
  | mark c kind h => exact .punctuation h
  | null =>
      have hname : IsName ['n', 'u', 'l', 'l'] := ⟨'n', _, rfl, rfl, List.all_eq_true.1 rfl⟩
      exact .word hname
  | ident name h hne =>
      have hword := Writes.word h
      rw [word_of_ne_null hne] at hword
      exact hword
  | integer written h => exact .integer h
  | string quote hq text =>
      exact .string hq (writesBody_flatMap (fun x => writeChar_cases hq x.1 x.2) text)

/-- What a script may have as a token: everything but the end mark, where a name is a name and not a word
    of the language, and an integer is a numeral. -/
def Kind.Writable : Kind → Prop
  | .ident name => IsName name.toList ∧ name ≠ "null"
  | .integer written => Decimal.Numeral written
  | .eof => False
  | _ => True

theorem writable_of_punctuation? {c : Char} {kind : Kind} (h : punctuation? c = some kind) :
    kind.Writable := by
  unfold punctuation? at h
  repeat' split at h
  all_goals (cases h; try trivial)

theorem Spelling.writable (s : Spelling) : s.kind.Writable := by
  cases s with
  | mark c kind h => exact writable_of_punctuation? h
  | null => trivial
  | ident name h hne => exact ⟨h, hne⟩
  | integer written h => exact h
  | string quote hq text => trivial

theorem exists_spelling {kind : Kind} (h : kind.Writable) : ∃ s : Spelling, s.kind = kind := by
  cases kind with
  | comma => exact ⟨.mark ',' .comma rfl, rfl⟩
  | semicolon => exact ⟨.mark ';' .semicolon rfl, rfl⟩
  | leftParen => exact ⟨.mark '(' .leftParen rfl, rfl⟩
  | rightParen => exact ⟨.mark ')' .rightParen rfl, rfl⟩
  | leftBracket => exact ⟨.mark '[' .leftBracket rfl, rfl⟩
  | rightBracket => exact ⟨.mark ']' .rightBracket rfl, rfl⟩
  | null => exact ⟨.null, rfl⟩
  | ident name => exact ⟨.ident name h.1 h.2, rfl⟩
  | integer written => exact ⟨.integer written h, rfl⟩
  | string text =>
      refine ⟨.string '\x27' rfl (text.toList.map (·, false)), ?_⟩
      have htext : (text.toList.map (·, false)).map Prod.fst = text.toList :=
        List.map_map.trans (List.map_id _)
      show Kind.string (String.ofList _) = _
      rw [htext, String.ofList_toList]
  | eof => exact h.elim

/-! ## 3. Words -/

/-- A token as it is written, and what stands in front of it. -/
structure Word where
  gap : List Filler
  spelling : Spelling

namespace Word

def chars (w : Word) : List Char := gapChars w.gap ++ w.spelling.chars

/-- Nothing needs to stand in front of the first word, and something in front of the others. -/
def Parted (ws : List Word) : Prop := ∀ w ∈ ws.tail, w.gap ≠ []

theorem Parted.tail {w : Word} {ws : List Word} (h : Parted (w :: ws)) : Parted ws :=
  fun w' hw' => h w' (List.mem_of_mem_tail hw')

/-- Behind a word, its name does not go on. -/
theorem Parted.stopsAt {w : Word} {ws : List Word} (h : Parted (w :: ws))
    (hrest : StopsAt isNamePart rest) : StopsAt isNamePart (ws.flatMap chars ++ rest) := by
  cases ws with
  | nil => exact hrest
  | cons w' ws =>
      have hgap := h w' List.mem_cons_self
      rw [List.flatMap_cons, chars, List.append_assoc, List.append_assoc]
      exact stopsAt_gap (Or.inl hgap)

end Word

/-- **Words that are parted are cut into their tokens.** -/
theorem cutsInto_words {ws : List Word} (h : Word.Parted ws) :
    CutsInto (fun us => us.map Token.kind = ws.map (·.spelling.kind)) (ws.flatMap Word.chars) := by
  induction ws with
  | nil => exact cutsInto_nil.imp fun us hus => hus ▸ rfl
  | cons w ws ih =>
      intro p rest ts hrest hs
      rw [List.flatMap_cons, Word.chars, Place.after_append, Place.after_append] at hs
      obtain ⟨us, hkinds, hbehind⟩ := ih h.tail _ rest ts hrest hs
      obtain ⟨_, ⟨q, rfl⟩, hcut⟩ :=
        cutsInto_token w.spelling.writes _ _ _ (h.stopsAt hrest) hbehind
      refine ⟨⟨w.spelling.kind, q⟩ :: us, congrArg (_ :: ·) hkinds, ?_⟩
      rw [List.flatMap_cons, Word.chars, List.append_assoc, List.append_assoc]
      exact cuts_gap w.gap hcut

/-! ## 4. Scripts -/

/-- The text of a comment, without the end of its line. -/
def Remark : Type := {body : List Char // ∀ c ∈ body, isLineEnd c = false}

/-- A script with its layout: the words, what stands behind the last one, and a comment that is ended by
    the end of the script, if there is one. -/
structure Layout where
  words : List Word
  parted : Word.Parted words
  back : List Filler
  remark : Option Remark

namespace Layout

/-- A comment up to the end of the script. -/
def remarkChars : Option Remark → List Char
  | none => []
  | some body => '#' :: body.1

/-- The script as it is laid out. -/
def source (l : Layout) : String :=
  String.ofList (l.words.flatMap Word.chars ++ (gapChars l.back ++ remarkChars l.remark))

/-- The tokens that are laid out. -/
def kinds (l : Layout) : List Kind := l.words.map (·.spelling.kind)

theorem stopsAt_remark (remark : Option Remark) : StopsAt isNamePart (remarkChars remark) := by
  intro x hx
  cases remark with
  | none => cases hx
  | some body =>
      obtain rfl : '#' = x := Option.some.inj hx
      rfl

theorem cuts_remark (remark : Option Remark) (p : Place) : Cuts p (remarkChars remark) [] := by
  cases remark with
  | none => exact .stop p
  | some body =>
      have h : Cuts p ('#' :: (body.1 ++ [])) [] := .comment body.2 nofun (.stop _)
      rwa [List.append_nil] at h

end Layout

/-- Tokens can be laid out if a script may have them. -/
theorem exists_layout_iff (kinds : List Kind) :
    (∃ l : Layout, l.kinds = kinds) ↔ ∀ kind ∈ kinds, kind.Writable := by
  constructor
  · rintro ⟨l, rfl⟩ kind hkind
    obtain ⟨w, -, rfl⟩ := List.mem_map.1 hkind
    exact w.spelling.writable
  · intro h
    have hwords : ∃ ws : List Word, (∀ w ∈ ws, w.gap ≠ []) ∧ ws.map (·.spelling.kind) = kinds := by
      induction kinds with
      | nil => exact ⟨[], nofun, rfl⟩
      | cons kind kinds ih =>
          obtain ⟨hkind, hkinds⟩ := List.forall_mem_cons.1 h
          obtain ⟨s, rfl⟩ := exists_spelling hkind
          obtain ⟨ws, hgaps, rfl⟩ := ih hkinds
          exact ⟨⟨[.space ' ' rfl], s⟩ :: ws,
            List.forall_mem_cons.2 ⟨List.cons_ne_nil _ _, hgaps⟩, rfl⟩
    obtain ⟨ws, hgaps, hws⟩ := hwords
    exact ⟨⟨ws, fun w hw => hgaps w (List.mem_of_mem_tail hw), [], none⟩, hws⟩

/-- **Whatever its layout, a script is cut into the tokens that were laid out**, in their order, and the
    end mark. All tokens that a script may have can be laid out. -/
theorem scan_layout :
    (∀ kinds : List Kind, (∃ l : Layout, l.kinds = kinds) ↔ ∀ kind ∈ kinds, kind.Writable) ∧
    ∀ (l : Layout) (file : Option String),
      (scan l.source file).map (·.map Token.kind) = .ok (l.kinds ++ [.eof]) := by
  refine ⟨exists_layout_iff, fun l file => ?_⟩
  have hend : StopsAt isNamePart (gapChars l.back ++ Layout.remarkChars l.remark) :=
    stopsAt_gap (Or.inr (Layout.stopsAt_remark l.remark))
  obtain ⟨us, hkinds, hcut⟩ := cutsInto_words l.parted ⟨file, 1, 1⟩ _ [] hend
    (cuts_gap l.back (Layout.cuts_remark l.remark _))
  rw [List.append_nil] at hcut
  rw [scan, Layout.source, String.toList_ofList, scanFrom_of_cuts hcut]
  show Except.ok (List.map Token.kind (us ++ [_])) = _
  rw [List.map_append, hkinds]
  rfl

end CallScript.Token
