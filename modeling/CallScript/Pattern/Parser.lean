import CallScript.Pattern.Groups
import CallScript.Pattern.Mode
import CallScript.Pattern.Read

/-!
# From the text of a pattern to an expression

`Expr.parse` reads a whole pattern. It goes over the text once and keeps what is open: for each open
group the mode to return to, and what stood before it. A pattern ends well if nothing is open then.

Escapes, classes, repetition counts and the headers of groups are read by readers of their own.
Nesting is limited twice: in the number of groups that are open at once, and in the depth of the
expression that comes out.
-/

namespace CallScript.Pattern

open Read

/-! ## 1. Escapes -/

/-- An escape that a backslash may turn into the character itself. -/
def isEscapable (c : Char) : Bool := c.toNat < 0x80 && !c.isAlphanum && c ≠ '<' && c ≠ '>'

/-- A character of the name of a special word boundary. -/
def isBoundaryNamePart (c : Char) : Bool := c.isAlpha || c = '-'

/-- The special word boundaries. -/
def boundary? (name : String) : Option Look :=
  match name with
  | "start" => some .wordStart
  | "end" => some .wordEnd
  | "start-half" => some .wordStartHalf
  | "end-half" => some .wordEndHalf
  | _ => none

/-- The assertion behind the letter that stands for word boundaries. Braces that do not start with
    a letter or a dash are left, for they count repetitions. -/
def readBoundary (m : Mode) : Read Look := do
  match ← remaining with
  | '\x7b' :: r =>
    match skipped m.verbose r with
    | [] => fail .boundaryUnfinished
    | c :: _ =>
      if isBoundaryNamePart c then do
        bump
        skip m.verbose
        let name ← run m.verbose isBoundaryNamePart
        if (← peek) = some '\x7d' then do
          bump
          match boundary? (String.ofList name) with
          | some look => pure look
          | none => fail .boundaryUnknown
        else fail .boundaryUnclosed
      else pure .wordBoundary
  | _ => pure .wordBoundary

/-- The set that a letter stands for behind a backslash. -/
def classEscape? (c : Char) : Option CharSet :=
  match c with
  | 'd' => some CharSet.digit
  | 's' => some CharSet.space
  | 'w' => some CharSet.word
  | 'D' => some CharSet.digit.complement
  | 'S' => some CharSet.space.complement
  | 'W' => some CharSet.word.complement
  | _ => none

/-- The control character that a letter stands for behind a backslash. -/
def control? (c : Char) : Option Char :=
  match c with
  | 'a' => some '\x07'
  | 'f' => some '\x0C'
  | 't' => some '\t'
  | 'n' => some '\n'
  | 'r' => some '\r'
  | 'v' => some '\x0B'
  | _ => none

/-- The assertion that a character stands for behind a backslash. -/
def lookEscape? (c : Char) : Option Look :=
  match c with
  | 'A' => some .textStart
  | 'z' => some .textEnd
  | 'B' => some .notWordBoundary
  | '<' => some .wordStart
  | '>' => some .wordEnd
  | _ => none

/-- The number of digits of a code point without braces, by the letter before it. -/
def codePointWidth? (c : Char) : Option Nat :=
  match c with
  | 'x' => some 2
  | 'u' => some 4
  | 'U' => some 8
  | _ => none

/-- What a character means behind a backslash. -/
def escapeOf (m : Mode) (c : Char) : Read Expr :=
  if c.isDigit then fail .backreference
  else if c = 'p' || c = 'P' then fail .unicodeClass
  else if c = 'b' then do
    let look ← readBoundary m
    pure (.look look)
  else
    match codePointWidth? c, classEscape? c, control? c, lookEscape? c with
    | some width, _, _, _ => do
      let c ← codePoint m.verbose width
      pure (m.char c)
    | _, some s, _, _ => pure (.set s)
    | _, _, some c, _ => pure (m.char c)
    | _, _, _, some look => pure (.look look)
    | _, _, _, _ => if isEscapable c then pure (m.char c) else fail .escapeUnknown

/-- What follows a backslash. -/
def readEscape (m : Mode) : Read Expr := do
  match ← peek with
  | none => fail .escapeUnfinished
  | some c => do
    bump
    escapeOf m c

/-! ## 2. Classes -/

/-- A set with a name, behind its opening bracket: `:name:]`, or `:^name:]` for its complement. -/
def namedSet? (s : List Char) : Option (Taken CharSet s) :=
  match s with
  | ':' :: r =>
    let negated := r.head? = some '^'
    let r' := if negated then r.tail else r
    match h : r'.dropWhile (· ≠ ':') with
    | ':' :: ']' :: rest =>
      match CharSet.named? (String.ofList (r'.takeWhile (· ≠ ':'))) with
      | some set =>
        some ⟨if negated then set.complement else set, rest, by
          have h₁ := (List.dropWhile_sublist (l := r') (· ≠ ':')).length_le
          rw [h] at h₁
          have h₂ : r'.length ≤ r.length := by
            simp only [r']
            split <;> simp
          simp only [List.length_cons] at h₁ ⊢
          omega⟩
      | none => none
    | _ => none
  | _ => none

/-- The first character that counts behind a dash. In a verbose pattern blanks are passed over, and
    one hash sign with the blanks behind it; if nothing is left then, it is the very next
    character. -/
def behindDash (verbose : Bool) (r : List Char) : Option Char :=
  if verbose then
    match r.dropWhile Text.isBlank with
    | '#' :: s => (s.dropWhile Text.isBlank).head?.or r.head?
    | s => s.head?.or r.head?
  else r.head?

/-- An item of a class that starts with `c`. -/
def readItem (m : Mode) (c : Char) : Read Expr :=
  if c = '\\' then readEscape m else pure (.char c)

/-- The characters of an item that stands alone. -/
def itemRanges : Expr → Read (List CharRange)
  | .char c => pure [CharSet.single c]
  | .set s => pure s.ranges
  | _ => fail .classItemAssertion

/-- The characters between two items. -/
def rangeBetween : Expr → Expr → Read (List CharRange)
  | .char a, .char b =>
    if a.toNat ≤ b.toNat then pure [CharSet.between a b] else fail .classRangeReversed
  | _, _ => fail .classEndNotCharacter

/-- An item of a class, or a range between two, that starts with `c`. -/
def readRange (m : Mode) (c : Char) : Read (List CharRange) := do
  let item ← readItem m c
  skip m.verbose
  match ← remaining with
  | [] => fail .classUnclosedAfterItem
  | d :: r =>
    let next := behindDash m.verbose r
    if d ≠ '-' || next = some ']' || next = some '-' then itemRanges item
    else do
      bump
      skip m.verbose
      match ← peek with
      | none => fail .classUnclosedAfterDash
      | some e => do
        bump
        let last ← readItem m e
        rangeBetween item last

/-- The dashes at the start of a class, each of which stands for itself. -/
def readDashes (m : Mode) (s : List Char) : Except Error (Taken Bool s) :=
  match s with
  | '-' :: r =>
    match h : skipped m.verbose r with
    | [] => .error .classUnclosedAfterDash
    | c :: r' =>
      have hle : (c :: r').length ≤ r.length := h ▸ length_skipped_le m.verbose r
      match readDashes m (c :: r') with
      | .error e => .error e
      | .ok t => .ok ⟨true, t.rest, by
        have := t.le
        simp only [List.length_cons] at this hle ⊢
        omega⟩
  | s => .ok ⟨false, s, Nat.le_refl _⟩
termination_by s.length
decreasing_by
  simp only [List.length_cons] at hle ⊢
  omega

/-- The items of a class up to its closing bracket. -/
def readItems (m : Mode) (found : List CharRange) (s : List Char) :
    Except Error (Taken (List CharRange) s) :=
  match h : skipped m.verbose s with
  | [] => .error .classUnclosed
  | c :: r =>
    have hle : r.length + 1 ≤ s.length := by
      have := length_skipped_le m.verbose s
      rwa [h] at this
    if c = ']' then .ok ⟨found, r, by omega⟩
    else if c = '[' then
      match namedSet? r with
      | none => .error .classNested
      | some t =>
        have ht := t.le
        match readItems m (found ++ t.value.ranges) t.rest with
        | .error e => .error e
        | .ok u => .ok (u.widen (by omega))
    else if c = '&' && r.head? = some '&' then .error .classIntersection
    else if c = '-' && r.head? = some '-' then .error .classDifference
    else if c = '~' && r.head? = some '~' then .error .classSymmetricDifference
    else
      match readRange m c r with
      | .error e => .error e
      | .ok t =>
        have ht := t.le
        match readItems m (found ++ t.value) t.rest with
        | .error e => .error e
        | .ok u => .ok (u.widen (by omega))
termination_by s.length
decreasing_by all_goals omega

/-- A class, behind its opening bracket. -/
def readClass (m : Mode) : Read CharSet := do
  skip m.verbose
  match ← peek with
  | none => fail .classUnclosed
  | some c => do
    let negated := c = '^'
    if negated then do
      bump
      skip m.verbose
    match ← peek with
    | none => fail .classUnclosedAfterNegation
    | some _ => do
      let dashes ← readDashes m
      let first ← peek
      let bracket := !dashes && first = some ']'
      if bracket then do
        bump
        skip m.verbose
      if bracket && (← peek).isNone then fail .classUnclosedAfterBracket
      else do
        let found := if dashes then [CharSet.single '-']
          else if bracket then [CharSet.single ']'] else []
        let ranges ← readItems m found
        let set := CharSet.ofRanges ranges
        let set := if m.ignoreCase then set.foldCase else set
        pure (if negated then set.complement else set)

/-! ## 3. Repetitions -/

/-- How often something is repeated, and whether the count is marked as lazy. -/
structure Count where
  min : Nat
  max : Option Nat
  lazy : Bool

/-- The closing brace of a count, and the mark behind it. -/
def closeCount (m : Mode) (min : Nat) (max : Option Nat) : Read Count := do
  if (← peek) = some '\x7d' then do
    bump
    skip m.verbose
    let lazy := (← peek) = some '?'
    if lazy then bump
    if max.any (· < min) then fail .countReversed else pure ⟨min, max, lazy⟩
  else fail .countUnexpected

/-- A count in braces, behind the opening one. -/
def readCount (m : Mode) : Read Count := do
  skip m.verbose
  if (← peek).isNone then fail .countUnclosed
  else do
    let min ← decimal m.verbose
    match ← peek with
    | none => fail .countMinUnclosed
    | some ',' => do
      bump
      skip m.verbose
      match ← peek with
      | none => fail .countCommaUnclosed
      | some '\x7d' => closeCount m min none
      | some _ => do
        let max ← decimal m.verbose
        if (← peek).isNone then fail .countMaxUnclosed else closeCount m min (some max)
    | some _ => closeCount m min (some min)

/-- The mark of a lazy repetition. -/
def readLazy : Read Bool := do
  if (← peek) = some '?' then do
    bump
    pure true
  else pure false

/-! ## 4. Headers of groups -/

/-- What an opening parenthesis begins. -/
inductive Header
  /-- A group with a number. -/
  | numbered (name : Option GroupName)
  /-- A group without a number, in a mode of its own. -/
  | scoped (m : Mode)
  /-- No group: the mode changes up to the end of the group around it. -/
  | switched (m : Mode)

/-- The flags of a header, up to the colon or the parenthesis that ends them. -/
def readSwitches (negated dangling : Bool) (seen : List Char) (m : Mode) :
    (s : List Char) → Except Error (Taken Header s)
  | [] => .error .flagsUnclosed
  | c :: r =>
    if c = ':' || c = ')' then
      if dangling then .error .negationDangling
      else .ok ⟨if c = ':' then .scoped m else .switched m, r, by simp⟩
    else if c = '-' then
      if negated then .error .negationRepeated
      else
        match readSwitches true true seen m r with
        | .error e => .error e
        | .ok t => .ok (t.widen (by simp))
    else
      match m.switch? c (!negated) with
      | none => .error .flagUnknown
      | some m =>
        if seen.contains c then .error .flagRepeated
        else
          match readSwitches negated false (c :: seen) m r with
          | .error e => .error e
          | .ok t => .ok (t.widen (by simp))

/-- The name of a group, up to the angle bracket that ends it. -/
def readGroupName : Read GroupName := do
  if (← peek).isNone then fail .groupNameMissing
  else do
    let chars ← span (· ≠ '>')
    if h : isGroupNameText chars = true then do
      if (← peek).isNone then fail .groupNameUnclosed
      else do
        bump
        if h' : chars ≠ [] then pure ⟨chars, h', h⟩ else fail .groupNameEmpty
    else fail .groupNameInvalid

/-- A text starts with one of these. -/
def startsWithAny (ps : List (List Char)) (s : List Char) : Bool := ps.any (·.isPrefixOf s)

/-- The header of a group, behind its opening parenthesis. -/
def readHeader (m : Mode) : Read Header := do
  skip m.verbose
  let s ← remaining
  if startsWithAny ["?=".toList, "?!".toList, "?<=".toList, "?<!".toList] s then fail .lookAround
  else if "?P<".toList.isPrefixOf s then do
    drop 3
    let name ← readGroupName
    pure (.numbered (some name))
  else if "?<".toList.isPrefixOf s then do
    drop 2
    let name ← readGroupName
    pure (.numbered (some name))
  else if "?".toList.isPrefixOf s then do
    drop 1
    match ← peek with
    | none => fail .groupUnfinished
    | some ')' => fail .flagsEmpty
    | some _ => readSwitches false false [] m
  else pure (.numbered none)

/-! ## 5. The whole pattern -/

/-- What is put aside while a group is read. -/
structure Aside where
  mode : Mode
  number : Option Nat
  sequence : List Expr
  choices : List Expr

/-- What has been read of a pattern. The expressions of the sequence that is being read, and the
    choices before it, stand in reverse. -/
structure Reading where
  mode : Mode
  pending : List Aside
  sequence : List Expr
  choices : List Expr
  groups : Groups

namespace Reading

/-- Groups may be open within each other, and expressions may be nested, up to this limit. -/
def nestLimit : Nat := 50

/-- The expression that has been read since the last group was opened. -/
def current (g : Reading) : Expr :=
  Expr.ofChoice ((Expr.ofSequence g.sequence.reverse :: g.choices).reverse)

/-- One more expression in the sequence. -/
def push (g : Reading) (e : Expr) : Reading := { g with sequence := e :: g.sequence }

/-- The sequence is complete, and another choice begins. -/
def bar (g : Reading) : Reading :=
  { g with sequence := [], choices := Expr.ofSequence g.sequence.reverse :: g.choices }

/-- The last expression of the sequence is repeated. -/
def repeatLast (g : Reading) (c : Count) (missing : Error) : Except Error Reading :=
  match g.sequence with
  | [] => .error missing
  | e :: es =>
    .ok { g with sequence := e.repeated c.min c.max (c.lazy = g.mode.swapGreed) :: es }

/-- A group opens in the given mode. -/
def enter (g : Reading) (number : Option Nat) (mode : Mode) : Except Error Reading :=
  if nestLimit < g.pending.length + 1 then .error .tooMuchNesting
  else .ok { g with
    mode := mode
    pending := ⟨g.mode, number, g.sequence, g.choices⟩ :: g.pending
    sequence := []
    choices := [] }

/-- What a header begins. -/
def openGroup (g : Reading) : Header → Except Error Reading
  | .switched m => .ok { g with mode := m }
  | .scoped m => g.enter none m
  | .numbered name =>
    match g.groups.add? name with
    | none => .error .groupNameRepeated
    | some groups => { g with groups := groups }.enter (some groups.count) g.mode

/-- The last group that was opened is complete. -/
def close (g : Reading) : Except Error Reading :=
  match g.pending with
  | [] => .error .groupUnopened
  | a :: rest =>
    let e := match a.number with
      | some n => .group n g.current
      | none => g.current
    .ok { g with mode := a.mode, pending := rest, sequence := e :: a.sequence, choices := a.choices }

/-- The pattern is at its end. -/
def finish (g : Reading) : Except Error (Expr × Groups) :=
  if !g.pending.isEmpty then .error .groupUnclosed
  else if nestLimit < g.current.depth then .error .tooMuchNesting
  else .ok (g.current, g.groups)

/-- How often an operator of one character repeats. -/
def operator? (c : Char) : Option (Nat × Option Nat) :=
  match c with
  | '?' => some (0, some 1)
  | '*' => some (0, none)
  | '+' => some (1, none)
  | _ => none

/-- Reads on with the piece of the pattern that starts with `c`. -/
def piece (g : Reading) (c : Char) : Read Reading :=
  match operator? c with
  | some (min, max) => do
    let lazy ← readLazy
    match g.repeatLast ⟨min, max, lazy⟩ .repeatedNothing with
    | .ok g => pure g
    | .error e => fail e
  | none =>
    match c with
    | '(' => do
      let header ← readHeader g.mode
      match g.openGroup header with
      | .ok g => pure g
      | .error e => fail e
    | ')' =>
      match g.close with
      | .ok g => pure g
      | .error e => fail e
    | '|' => pure g.bar
    | '[' => do
      let set ← readClass g.mode
      pure (g.push (.set set))
    | '\x7b' =>
      if g.sequence.isEmpty then fail .countedNothing
      else do
        let count ← readCount g.mode
        match g.repeatLast count .countedNothing with
        | .ok g => pure g
        | .error e => fail e
    | '\\' => do
      let e ← readEscape g.mode
      pure (g.push e)
    | '.' => pure (g.push g.mode.dot)
    | '^' => pure (g.push g.mode.anchorStart)
    | '$' => pure (g.push g.mode.anchorEnd)
    | c => pure (g.push (g.mode.char c))

/-- Reads the rest of a pattern. -/
def readAll (g : Reading) (s : List Char) : Except Error (Expr × Groups) :=
  match _h : skipped g.mode.verbose s with
  | [] => g.finish
  | c :: r =>
    match g.piece c r with
    | .error e => .error e
    | .ok t => readAll t.value t.rest
termination_by s.length
decreasing_by
  have h₁ := length_skipped_le g.mode.verbose s
  have h₂ := t.le
  rw [_h] at h₁
  simp only [List.length_cons] at h₁
  omega

end Reading

/-- The expression of a pattern, and its groups. -/
def Expr.parse (flags : Flags) (s : List Char) : Except Error (Expr × Groups) :=
  Reading.readAll ⟨Mode.ofFlags flags, [], [], [], Groups.empty⟩ s

end CallScript.Pattern
