import CallScript.Token

/-!
# Cutting a text into tokens

`Token.scan` reads a whole script. Between tokens there may be spaces, tabs, line ends and comments
from a hash sign to the end of the line. The last token marks the end of the text.

The text is first paired with its places (`located`), so that a token, or the character that no
token starts at, brings its own place along. One token is read by `lexeme?`; what it leaves is
shorter (`length_lt_of_lexeme?`), and that ends the reading.
-/

namespace CallScript.Token

/-! ## 1. Characters and their places -/

/-- A character of a script and where it stands. -/
structure Located where
  char : Char
  place : Place
deriving DecidableEq, Repr

/-- The characters of a text that starts at the place. -/
def located (p : Place) : List Char → List Located
  | [] => []
  | c :: r => ⟨c, p⟩ :: located (p.next c) r

/-- The characters without their places. -/
def chars (s : List Located) : List Char := s.map Located.char

/-! ## 2. Classes of characters -/

/-- A character that only separates tokens. -/
def isSpace (c : Char) : Bool := c = ' ' || c = '\t' || c = '\r' || c = '\n'

/-- A character that ends a comment. -/
def isLineEnd (c : Char) : Bool := c = '\r' || c = '\n'

/-- A character that opens and closes a string. -/
def isQuote (c : Char) : Bool := c = '\x27' || c = '\x22'

/-- A character that a name may start with. -/
def isNameStart (c : Char) : Bool := c.isAlpha || c = '_'

/-- A character that a name may go on with. -/
def isNamePart (c : Char) : Bool := c.isAlphanum || c = '_'

/-- The token that is one character. -/
def punctuation? (c : Char) : Option Kind :=
  if c = ',' then some .comma
  else if c = ';' then some .semicolon
  else if c = '(' then some .leftParen
  else if c = ')' then some .rightParen
  else if c = '[' then some .leftBracket
  else if c = ']' then some .rightBracket
  else none

/-! ## 3. Separators -/

/-- The text behind leading spaces and comments; `comment` tells that a comment is open. -/
def skipTrivia (comment : Bool) : List Located → List Located
  | [] => []
  | x :: r =>
    if comment then skipTrivia (!isLineEnd x.char) r
    else if isSpace x.char then skipTrivia false r
    else if x.char = '#' then skipTrivia true r
    else x :: r

/-! ## 4. One token -/

/-- What a backslash and a character stand for in a string. An escape that is not known stays as it
    was written. -/
def unescape (c : Char) : List Char :=
  if c = '\\' || isQuote c then [c]
  else if c = 'n' then ['\n']
  else if c = 't' then ['\t']
  else if c = 'r' then ['\r']
  else ['\\', c]

/-- The text of a string up to its closing quote, and what follows the quote. -/
def stringBody? (quote : Char) : List Located → Option (List Char × List Located)
  | [] => none
  | x :: r =>
    if x.char = quote then some ([], r)
    else if x.char = '\\' then
      match r with
      | [] => none
      | y :: r => (stringBody? quote r).map fun o => (unescape y.char ++ o.1, o.2)
    else (stringBody? quote r).map fun o => (x.char :: o.1, o.2)

/-- The token that a name is. -/
def word (name : List Char) : Kind :=
  let name := String.ofList name
  if name = "null" then .null else .ident name

/-- The token that starts with the character `c`, and what follows it. -/
def kind? (c : Char) (r : List Located) : Option (Kind × List Located) :=
  match punctuation? c with
  | some kind => some (kind, r)
  | none =>
    if isQuote c then (stringBody? c r).map fun o => (.string (String.ofList o.1), o.2)
    else if isNameStart c then
      some (word (c :: chars (r.takeWhile (isNamePart ·.char))), r.dropWhile (isNamePart ·.char))
    else
      let digits := chars (r.takeWhile (·.char.isDigit))
      if c.isDigit || (c = '-' && !digits.isEmpty) then
        some (.integer (String.ofList (c :: digits)), r.dropWhile (·.char.isDigit))
      else none

/-- The token at the head of the text, and what follows it. -/
def lexeme? : List Located → Option (Token × List Located)
  | [] => none
  | x :: r => (kind? x.char r).map fun o => (⟨o.1, x.place⟩, o.2)

/-! ## 5. Reading makes the text shorter -/

theorem length_skipTrivia_le (comment : Bool) (s : List Located) :
    (skipTrivia comment s).length ≤ s.length := by
  induction s generalizing comment with
  | nil => simp [skipTrivia]
  | cons x r ih =>
    simp only [skipTrivia]
    split
    · exact Nat.le_succ_of_le (ih _)
    · split
      · exact Nat.le_succ_of_le (ih _)
      · split
        · exact Nat.le_succ_of_le (ih _)
        · exact Nat.le_refl _

theorem length_dropWhile_le (p : Located → Bool) (s : List Located) :
    (s.dropWhile p).length ≤ s.length :=
  (List.dropWhile_sublist p).length_le

theorem length_lt_of_stringBody? {quote : Char} {s rest : List Located} {text : List Char}
    (h : stringBody? quote s = some (text, rest)) : rest.length < s.length := by
  fun_induction stringBody? quote s generalizing text with
  | case1 => simp at h
  | case2 x r => simp_all
  | case3 => simp at h
  | case4 x _ _ y r ih =>
    obtain ⟨⟨t, u⟩, h', e⟩ := Option.map_eq_some_iff.1 h
    simp only [Prod.mk.injEq] at e
    have := ih (e.2 ▸ h')
    simp only [List.length_cons]
    omega
  | case5 x r _ _ ih =>
    obtain ⟨⟨t, u⟩, h', e⟩ := Option.map_eq_some_iff.1 h
    simp only [Prod.mk.injEq] at e
    have := ih (e.2 ▸ h')
    simp only [List.length_cons]
    omega

theorem length_le_of_kind? {c : Char} {r rest : List Located} {kind : Kind}
    (h : kind? c r = some (kind, rest)) : rest.length ≤ r.length := by
  unfold kind? at h
  split at h
  · simp_all
  · split at h
    · obtain ⟨⟨t, u⟩, h', e⟩ := Option.map_eq_some_iff.1 h
      have := length_lt_of_stringBody? h'
      simp_all
      omega
    · split at h
      · simp only [Option.some.injEq, Prod.mk.injEq] at h
        exact h.2 ▸ length_dropWhile_le _ _
      · dsimp only at h
        split at h
        · simp only [Option.some.injEq, Prod.mk.injEq] at h
          exact h.2 ▸ length_dropWhile_le _ _
        · simp at h

theorem length_lt_of_lexeme? {s rest : List Located} {t : Token}
    (h : lexeme? s = some (t, rest)) : rest.length < s.length := by
  cases s with
  | nil => simp [lexeme?] at h
  | cons x r =>
    obtain ⟨⟨k, u⟩, h', e⟩ := Option.map_eq_some_iff.1 h
    have hle := length_le_of_kind? h'
    simp only [Prod.mk.injEq] at e
    rw [← e.2, List.length_cons]
    omega

/-! ## 6. The whole text -/

/-- The failure at a character that no token starts at. -/
def refuse (x : Located) : LexError :=
  if isQuote x.char then .unterminatedString x.place else .unexpectedCharacter x.place x.char

/-- The tokens of a text whose end lies at `stop`. -/
def scanFrom (stop : Place) (s : List Located) : Except LexError (List Token) :=
  match _h : skipTrivia false s with
  | [] => .ok [⟨.eof, stop⟩]
  | x :: r =>
    match _h' : lexeme? (x :: r) with
    | none => .error (refuse x)
    | some (t, rest) => do
      let ts ← scanFrom stop rest
      pure (t :: ts)
termination_by s.length
decreasing_by
  have h₁ := length_lt_of_lexeme? _h'
  have h₂ := length_skipTrivia_le false s
  rw [_h] at h₂
  omega

/-- The tokens of a script, the end mark last. -/
def scan (source : String) (file : Option String) : Except LexError (List Token) :=
  let start : Place := ⟨file, 1, 1⟩
  scanFrom (start.after source.toList) (located start source.toList)

end CallScript.Token
