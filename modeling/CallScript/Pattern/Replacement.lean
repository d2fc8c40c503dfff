import CallScript.Pattern

/-!
# Replacements

The text that is put in the place of a match may refer to groups of the pattern: `$` and a number, or
`$` and a name in braces. A backslash makes the next character plain. A number is the longest run of
digits whose value is the number of a group; the digits behind it are plain.

A replacement is a list of segments, plain texts and references. Plain texts are never empty and
never stand side by side.
-/

namespace CallScript.Pattern

/-- A segment of a replacement. -/
inductive Segment
  | plain (text : List Char)
  | group (number : Nat)
deriving DecidableEq, Repr

/-- Why a replacement is refused. -/
inductive ReplacementError
  | escapeUnfinished
  | nameUnclosed
  | nameUnknown (name : String)
  | numberUnknown (number : Nat)
  | referenceMalformed
deriving DecidableEq, Repr

namespace ReplacementError

def message : ReplacementError → String
  | escapeUnfinished => "Character to be escaped is missing"
  | nameUnclosed => "Named capturing group is missing trailing '\x7d'"
  | nameUnknown name => "No group with name \x7b" ++ name ++ "\x7d"
  | numberUnknown number => "No group " ++ String.ofList (Nat.toDigits 10 number)
  | referenceMalformed => "Illegal group reference"

end ReplacementError

namespace Segment

/-- The number that goes on with the digits, as long as it does not exceed the limit, and what is left
    behind it. -/
def number (limit n : Nat) : List Char → Nat × List Char
  | [] => (n, [])
  | c :: r =>
    let n' := n * 10 + (c.toNat - 0x30)
    if c.isDigit && n' ≤ limit then number limit n' r else (n, c :: r)

theorem length_number_le (limit n : Nat) (s : List Char) :
    (number limit n s).2.length ≤ s.length := by
  induction s generalizing n with
  | nil => simp [number]
  | cons c r ih =>
    simp only [number]
    split
    · exact Nat.le_succ_of_le (ih _)
    · exact Nat.le_refl _

/-- Puts a plain character in front of segments. -/
def consChar (c : Char) : List Segment → List Segment
  | .plain s :: r => .plain (c :: s) :: r
  | r => .plain [c] :: r

/-- The segments of a text. Groups are numbered up to `count`, and `find?` gives the number of a
    name. -/
def parse (count : Nat) (find? : String → Option Nat) (s : List Char) :
    Except ReplacementError (List Segment) :=
  match s with
  | [] => .ok []
  | '\\' :: [] => .error .escapeUnfinished
  | '\\' :: c :: r => (parse count find? r).map (consChar c)
  | '$' :: '\x7b' :: r =>
    match h : r.dropWhile (· ≠ '\x7d') with
    | [] => .error .nameUnclosed
    | _ :: rest =>
      have : rest.length < r.length := by
        have := (List.dropWhile_sublist (l := r) (· ≠ '\x7d')).length_le
        rw [h] at this
        exact this
      let name := String.ofList (r.takeWhile (· ≠ '\x7d'))
      match find? name with
      | none => .error (.nameUnknown name)
      | some n => (parse count find? rest).map (.group n :: ·)
  | '$' :: c :: r =>
    if c.isDigit then
      let first := c.toNat - 0x30
      if count < first then .error (.numberUnknown first)
      else
        have := length_number_le count (c.toNat - 0x30) r
        (parse count find? (number count first r).2).map (.group (number count first r).1 :: ·)
    else .error .referenceMalformed
  | '$' :: [] => .error .referenceMalformed
  | c :: r => (parse count find? r).map (consChar c)
termination_by s.length
decreasing_by all_goals simp only [List.length_cons]; omega

end Segment

/-- The text that replaces a match. -/
structure Replacement where
  segments : List Segment
deriving DecidableEq, Repr

namespace Replacement

/-- Reads a replacement for the matches of a pattern. -/
def parse (text : String) (p : Pattern) : Except ReplacementError Replacement :=
  (Segment.parse p.groupCount p.groups.numberOf? text.toList).map (⟨·⟩)

/-- The text that a replacement stands for, given the texts of the groups. -/
def expand (r : Replacement) (groupText : Nat → List Char) : List Char :=
  r.segments.flatMap fun
    | .plain s => s
    | .group n => groupText n

/-- The text for a match. A group that took no part gives nothing. -/
def forMatch (r : Replacement) (subject : Subject) (m : Match) : List Char :=
  r.expand fun n => (m.groupText? subject n).getD []

/-- The subject from a place on, with the matches replaced. -/
def replaceFrom (r : Replacement) (subject : Subject) (position : Nat) : List Match → List Char
  | [] => slice subject position subject.size
  | m :: ms =>
    slice subject position m.start ++ r.forMatch subject m ++ r.replaceFrom subject m.stop ms

/-- The subject with every match replaced. -/
def replaceAll (r : Replacement) (p : Pattern) (subject : Subject) : List Char :=
  r.replaceFrom subject 0 (p.program.findAll subject)

/-- The text that replaces every match of the plain text `literal`. The whole match is the only thing
    to refer to. -/
def forPlainText (text : String) (literal : List Char) : Except ReplacementError (List Char) :=
  (Segment.parse 0 (fun _ => none) text.toList).map fun segments =>
    (Replacement.mk segments).expand fun _ => literal

end Replacement

end CallScript.Pattern
