/-!
# Plain substrings

Occurrences of a plain text `d` in a subject are found from left to right and do not overlap. This
file fixes what is done with them:

* `splitOn` cuts the subject at the occurrences, at most a given number of times;
* `replaceAll` puts another text in the place of each;
* `singles` cuts after every character, for a subject that is to be split by the empty text.

Each is one pass over the subject. After an occurrence is found at a character, the characters that
belong to it are skipped: `skip` counts them down.
-/

namespace CallScript.Text

/-- One cut fewer; without a bound there is nothing to count. -/
def oneLess : Option Nat → Option Nat
  | none => none
  | some n => some (n - 1)

/-- The piece up to the next cut, and the pieces after it. -/
def splitOnFrom (d : List Char) : Option Nat → Nat → List Char → List Char × List (List Char)
  | _, _, [] => ([], [])
  | cuts, skip + 1, _ :: r => splitOnFrom d cuts skip r
  | cuts, 0, c :: r =>
    if cuts ≠ some 0 ∧ d.isPrefixOf (c :: r) then
      let next := splitOnFrom d (oneLess cuts) (d.length - 1) r
      ([], next.1 :: next.2)
    else
      let next := splitOnFrom d cuts 0 r
      (c :: next.1, next.2)

/-- The pieces of the subject between the first occurrences of `d`, which is not empty. At most
    `cuts` cuts are made; `none` sets no bound. -/
def splitOn (d : List Char) (cuts : Option Nat) (subject : List Char) : List (List Char) :=
  let parts := splitOnFrom d cuts 0 subject
  parts.1 :: parts.2

/-- The subject with `w` in the place of every occurrence of `d`, after `skip` characters that
    belong to the occurrence before. -/
def replaceAllFrom (d w : List Char) : Nat → List Char → List Char
  | _, [] => []
  | skip + 1, _ :: r => replaceAllFrom d w skip r
  | 0, c :: r =>
    if d.isPrefixOf (c :: r) then w ++ replaceAllFrom d w (d.length - 1) r
    else c :: replaceAllFrom d w 0 r

/-- The subject with `w` in the place of every occurrence of `d`, which is not empty. -/
def replaceAll (d w subject : List Char) : List Char := replaceAllFrom d w 0 subject

/-- The subject cut after each of its first characters, at most `cuts` times and never after the
    last. -/
def singles : Option Nat → List Char → List (List Char)
  | _, [] => [[]]
  | _, [c] => [[c]]
  | cuts, c :: r => if cuts = some 0 then [c :: r] else [c] :: singles (oneLess cuts) r

/-- `needle` occurs somewhere in the text. -/
def occursIn (needle : List Char) : List Char → Bool
  | [] => needle.isEmpty
  | c :: r => needle.isPrefixOf (c :: r) || occursIn needle r

end CallScript.Text
