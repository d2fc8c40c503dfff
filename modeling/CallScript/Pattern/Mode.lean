import CallScript.Pattern.Expr

/-!
# Flags

A pattern may be given with flags (`Flags`): letters fold their case, anchors hold at line ends, the
dot takes line feeds. Within the text of a pattern there are three more, and all of them can be
switched on and off (`Mode`). What a character, a dot or an anchor means depends on the mode.
-/

namespace CallScript.Pattern

/-! ## 1. The flags that come with a pattern -/

/-- The flags that a pattern is given with. -/
structure Flags where
  ignoreCase : Bool := false
  multiLine : Bool := false
  dotAll : Bool := false
deriving DecidableEq, Hashable, Repr

namespace Flags

/-- The flags with the one that a letter of either case names. -/
def with? (f : Flags) (c : Char) : Option Flags :=
  match c.toLower with
  | 'i' => some ⟨true, f.multiLine, f.dotAll⟩
  | 'm' => some ⟨f.ignoreCase, true, f.dotAll⟩
  | 's' => some ⟨f.ignoreCase, f.multiLine, true⟩
  | _ => none

/-- The flags that letters name, or the first letter that names none. -/
def ofChars (f : Flags) : List Char → Except Char Flags
  | [] => .ok f
  | c :: r =>
    match f.with? c with
    | some f => f.ofChars r
    | none => .error c

end Flags

/-! ## 2. The mode of reading -/

/-- What is switched on at a point of a pattern. -/
structure Mode where
  ignoreCase : Bool
  multiLine : Bool
  dotAll : Bool
  /-- Repetitions are lazy unless they are marked. -/
  swapGreed : Bool
  /-- A carriage return ends a line, too. -/
  anyLineEnd : Bool
  /-- Blanks and comments mean nothing. -/
  verbose : Bool
deriving DecidableEq, Repr

namespace Mode

/-- The mode at the start of a pattern. -/
def ofFlags (f : Flags) : Mode :=
  { ignoreCase := f.ignoreCase
    multiLine := f.multiLine
    dotAll := f.dotAll
    swapGreed := false
    anyLineEnd := false
    verbose := false }

/-- The mode with the flag of a letter switched. The letter `u` is known and means nothing. -/
def switch? (m : Mode) (c : Char) (on : Bool) : Option Mode :=
  match c with
  | 'i' => some { m with ignoreCase := on }
  | 'm' => some { m with multiLine := on }
  | 's' => some { m with dotAll := on }
  | 'U' => some { m with swapGreed := on }
  | 'R' => some { m with anyLineEnd := on }
  | 'x' => some { m with verbose := on }
  | 'u' => some m
  | _ => none

/-- The expression of a character: with the other case beside it, if case is folded. -/
def char (m : Mode) (c : Char) : Expr :=
  match m.ignoreCase, CharSet.otherCase? (CharSet.single c) with
  | true, some other => .set (CharSet.ofRanges [CharSet.single c, other])
  | _, _ => .char c

def dot (m : Mode) : Expr :=
  .set (if m.dotAll then CharSet.all
    else if m.anyLineEnd then CharSet.notLineEnd
    else CharSet.notLineFeed)

def anchorStart (m : Mode) : Expr :=
  .look (if m.multiLine then (if m.anyLineEnd then .lineStartAny else .lineStart) else .textStart)

def anchorEnd (m : Mode) : Expr :=
  .look (if m.multiLine then (if m.anyLineEnd then .lineEndAny else .lineEnd) else .textEnd)

end Mode

end CallScript.Pattern
