import CallScript.Pattern.Error
import CallScript.Text.Blank

/-!
# Reading the text of a pattern

A reader takes characters from the front of a text. It fails, or gives a value and what follows;
what follows is never longer than the text, and this is part of what a reader gives (`Taken`), so
that a loop that takes at least one character before it reads on comes to an end.

In a verbose pattern blanks and comments mean nothing in most positions. `skip` passes over them.
-/

namespace CallScript.Pattern

/-! ## 1. Readers -/

/-- A value read from the front of a text, and what follows it. -/
structure Taken (α : Type) (s : List Char) where
  value : α
  rest : List Char
  le : rest.length ≤ s.length

/-- What is taken from the end of a text is taken from the text. -/
def Taken.widen {α : Type} {r s : List Char} (t : Taken α r) (h : r.length ≤ s.length) :
    Taken α s :=
  ⟨t.value, t.rest, Nat.le_trans t.le h⟩

/-- A reader of a piece of a pattern. -/
def Read (α : Type) : Type := (s : List Char) → Except Error (Taken α s)

namespace Read

variable {α β : Type}

/-- Takes nothing. -/
def done (a : α) : Read α := fun s => .ok ⟨a, s, Nat.le_refl _⟩

/-- Reads on with a reader that depends on what was read. -/
def andThen (m : Read α) (f : α → Read β) : Read β := fun s =>
  match m s with
  | .error e => .error e
  | .ok t =>
    match f t.value t.rest with
    | .error e => .error e
    | .ok u => .ok (u.widen t.le)

instance : Monad Read where
  pure := done
  bind := andThen

/-- Fails. -/
def fail (e : Error) : Read α := fun _ => .error e

/-- The text that is still to be read. -/
def remaining : Read (List Char) := fun s => .ok ⟨s, s, Nat.le_refl _⟩

/-- The next character, which stays. -/
def peek : Read (Option Char) := fun s => .ok ⟨s.head?, s, Nat.le_refl _⟩

/-- Takes a character. -/
def bump : Read Unit := fun s => .ok ⟨(), s.tail, by simp⟩

/-- Takes a number of characters. -/
def drop (n : Nat) : Read Unit := fun s => .ok ⟨(), s.drop n, by simp⟩

/-! ## 2. Blanks and comments -/

/-- The text behind leading blanks, and comments from a hash sign to the end of the line; `comment`
    tells that a comment is open. -/
def dropBlanks (comment : Bool) : List Char → List Char
  | [] => []
  | c :: r =>
    if comment then dropBlanks (c ≠ '\n') r
    else if Text.isBlank c then dropBlanks false r
    else if c = '#' then dropBlanks true r
    else c :: r

theorem length_dropBlanks_le (comment : Bool) (s : List Char) :
    (dropBlanks comment s).length ≤ s.length := by
  induction s generalizing comment with
  | nil => simp [dropBlanks]
  | cons c r ih =>
    simp only [dropBlanks]
    split
    · exact Nat.le_succ_of_le (ih _)
    · split
      · exact Nat.le_succ_of_le (ih _)
      · split
        · exact Nat.le_succ_of_le (ih _)
        · exact Nat.le_refl _

/-- The text without what means nothing at its front: nothing, unless the pattern is verbose. -/
def skipped (verbose : Bool) (s : List Char) : List Char :=
  if verbose then dropBlanks false s else s

theorem length_skipped_le (verbose : Bool) (s : List Char) :
    (skipped verbose s).length ≤ s.length := by
  unfold skipped
  split
  · exact length_dropBlanks_le _ _
  · exact Nat.le_refl _

/-- Passes over what means nothing. -/
def skip (verbose : Bool) : Read Unit := fun s =>
  .ok ⟨(), skipped verbose s, length_skipped_le verbose s⟩

/-- Passes over blanks, but not over comments. -/
def skipBlanks : Read Unit := fun s =>
  .ok ⟨(), s.dropWhile Text.isBlank, (List.dropWhile_sublist _).length_le⟩

/-! ## 3. Runs of characters -/

/-- The longest run of characters of a class and the text behind it. What means nothing is passed
    over after each character. -/
def runOf (verbose : Bool) (p : Char → Bool) (s : List Char) : List Char × List Char :=
  match s with
  | [] => ([], [])
  | c :: r =>
    if p c then
      let o := runOf verbose p (skipped verbose r)
      (c :: o.1, o.2)
    else ([], c :: r)
termination_by s.length
decreasing_by
  have := length_skipped_le verbose r
  simp only [List.length_cons]
  omega

theorem length_runOf_le (verbose : Bool) (p : Char → Bool) (s : List Char) :
    (runOf verbose p s).2.length ≤ s.length := by
  fun_induction runOf verbose p s with
  | case1 => simp
  | case2 c r _ o ih =>
    have := length_skipped_le verbose r
    simp only [o, List.length_cons]
    omega
  | case3 => simp

/-- Takes the longest run of characters of a class. -/
def run (verbose : Bool) (p : Char → Bool) : Read (List Char) := fun s =>
  .ok ⟨(runOf verbose p s).1, (runOf verbose p s).2, length_runOf_le verbose p s⟩

/-- The longest run of characters of a class; every character counts. -/
def span (p : Char → Bool) : Read (List Char) := fun s =>
  .ok ⟨s.takeWhile p, s.dropWhile p, (List.dropWhile_sublist _).length_le⟩

/-! ## 4. Numbers -/

/-- The value of a hexadecimal digit. -/
def hexDigit? (c : Char) : Option Nat :=
  if c.isDigit then some (c.toNat - 0x30)
  else if 'a' ≤ c ∧ c ≤ 'f' then some (c.toNat - 0x61 + 10)
  else if 'A' ≤ c ∧ c ≤ 'F' then some (c.toNat - 0x41 + 10)
  else none

def isHexDigit (c : Char) : Bool := (hexDigit? c).isSome

/-- The character with the code point that hexadecimal digits write. -/
def hexChar? (digits : List Char) : Option Char :=
  let n := digits.foldl (fun n c => n * 16 + (hexDigit? c).getD 0) 0
  if n.isValidChar then some (Char.ofNat n) else none

/-- A decimal number that fits in 32 bits. Blanks may surround it. -/
def decimal (verbose : Bool) : Read Nat := do
  skipBlanks
  let digits ← run verbose Char.isDigit
  skipBlanks
  if digits.isEmpty then fail .decimalMissing
  else
    let n := Nat.ofDigitChars 10 digits 0
    if n < UInt32.size then pure n else fail .decimalTooLarge

/-- A given number of hexadecimal digits. -/
def hexDigits (verbose : Bool) : Nat → Read (List Char)
  | 0 => pure []
  | n + 1 => do
    match ← peek with
    | none => fail .hexFixedUnclosed
    | some c =>
      if isHexDigit c then do
        bump
        skip verbose
        let digits ← hexDigits verbose n
        pure (c :: digits)
      else fail .hexFixedDigit

/-- The code point of a character: hexadecimal digits in braces, or as many as `width` says. -/
def codePoint (verbose : Bool) (width : Nat) : Read Char := do
  skip verbose
  match ← peek with
  | none => fail .hexMissing
  | some '\x7b' => do
    bump
    skip verbose
    let digits ← run verbose isHexDigit
    match ← peek with
    | none => fail .hexBraceUnclosed
    | some '\x7d' => do
      bump
      skip verbose
      if digits.isEmpty then fail .hexBraceEmpty
      else
        match hexChar? digits with
        | some c => pure c
        | none => fail .hexBraceInvalid
    | some _ => fail .hexBraceDigit
  | some _ => do
    let digits ← hexDigits verbose width
    match hexChar? digits with
    | some c => pure c
    | none => fail .hexFixedInvalid

end Read

end CallScript.Pattern
