import CallScript.Function.Text

/-!
# Functions on patterns

A pattern argument is a text, or an array of a text and a text of flags. A pattern that is written as
a literal is compiled before the program runs, whatever the other arguments are; where it means
nothing but a text, a replacement or a split becomes the one on plain text.
-/

namespace CallScript.Function

open Pattern (Match Subject)

/-! ## 1. Pattern arguments -/

/-- Compiles the text of a pattern. -/
def compileText (source : String) (flags : Pattern.Flags) : Except Fault Pattern :=
  match Pattern.compile source flags with
  | .ok p => .ok p
  | .error e => .error (.pattern source e)

/-- The flags that a value names. -/
def flagsOf (v : Value) : Except Fault Pattern.Flags :=
  match Pattern.Flags.ofChars ⟨false, false, false⟩ v.render.toList with
  | .ok f => .ok f
  | .error c => .error (.flagUnknown c)

/-- The pattern that a value stands for. -/
def patternOf : Value → Except Fault Pattern
  | .array t =>
    match t.get? (.index 0) with
    | none => .error .patternMissing
    | some source => do
      let flags ← match t.get? (.index 1) with
        | none => pure ⟨false, false, false⟩
        | some .null => pure ⟨false, false, false⟩
        | some v => flagsOf v
      compileText source.render flags
  | v => compileText v.render ⟨false, false, false⟩

/-- The pattern of a call, if it is written as a literal. -/
def literalPattern? (args : List Node) : Except Fault (Option Pattern) :=
  match args.head?.bind Node.literal? with
  | none => .ok none
  | some l => (patternOf l.toValue).map some

/-- The text that a pattern written as a literal means, if it means nothing but a text, and not the
    empty one. -/
def plainPattern? (n : Node) : Option (List Char) :=
  match n.text?.bind fun s => Pattern.plainText? s.toList with
  | some (c :: r) => some (c :: r)
  | _ => none

/-- A replacement for the matches of a pattern. -/
def replacementOf (text : String) (p : Pattern) : Except Fault Pattern.Replacement :=
  match Pattern.Replacement.parse text p with
  | .ok r => .ok r
  | .error e => .error (.replacement e)

/-! ## 2. Matches as values -/

/-- The text of an argument, to be searched. -/
def subjectOf (args : List Value) (i : Nat) : Subject := (charsOf args i).toArray

/-- The text of a group, null if the group took no part. -/
def groupValue (subject : Subject) (m : Match) (number : Nat) : Value :=
  match m.groupText? subject number with
  | some s => textValue s
  | none => .null

/-- A match as an array: the groups under their numbers, the whole match under zero, and then the
    groups that have a name under their names. -/
def matchTable (p : Pattern) (subject : Subject) (m : Match) : Table Value :=
  let numbered := (List.range (p.groupCount + 1)).foldl
    (fun t i => t.set (.index (Int64.ofNat i)) (groupValue subject m i)) Table.associative
  p.namedGroups.foldl (fun t g => t.set (Key.ofText g.2.text) (groupValue subject m g.1)) numbered

/-- The first match as a value. -/
def firstMatch (p : Pattern) (subject : Subject) : Value :=
  match p.program.search subject 0 with
  | some m => .array (matchTable p subject m)
  | none => Value.ofList []

/-- All matches as values. -/
def everyMatch (p : Pattern) (subject : Subject) : Value :=
  Value.ofList ((p.program.findTouching subject).map fun m => .array (matchTable p subject m))

/-! ## 3. Splitting at matches -/

/-- At most a number of elements; `none` sets no bound. -/
def takeAtMost {α : Type} (bound : Option Nat) (xs : List α) : List α :=
  match bound with
  | none => xs
  | some n => xs.take n

/-- The pieces of the subject between matches, from a place on. -/
def piecesBetween (subject : Subject) (position : Nat) : List Match → List (List Char)
  | [] => [Pattern.slice subject position subject.size]
  | m :: ms =>
    Pattern.slice subject position m.start :: piecesBetween subject m.stop ms

/-- The pieces of the subject between the first matches. A match that ends where the subject begins
    cuts nothing. -/
def splitAtMatches (p : Pattern) (cuts : Option Nat) (subject : Subject) : List (List Char) :=
  piecesBetween subject 0
    (takeAtMost cuts ((p.program.findAll subject).filter fun m => m.stop ≠ 0))

/-! ## 4. The functions -/

/-- The check of a pattern argument. -/
def checkPattern (args : List Value) : Except Fault Unit :=
  (patternOf (arg args 0)).map fun _ => ()

/-- No other call, but a pattern that is written as a literal is checked. -/
def checkLiteralPattern (args : List Node) (_ : Place) : Except Fault (Option Node) :=
  (literalPattern? args).map fun _ => none

/-- What may be done with most functions on patterns. -/
def patternTreatments : List Treatment := [.validated, .kept, .rewritten, .droppable]

/-- The value that is computed from a pattern and a subject. -/
def withPattern (compute : Pattern → Subject → Value) (args : List Value) :
    Except Fault Value := do
  let p ← patternOf (arg args 0)
  pure (compute p (subjectOf args 1))

/-- Finds the first match. -/
def regMatch : Function :=
  ofPure
    { name := "reg_match"
      arity := .fixed 2
      params := ["pattern", "subject"]
      docs := "Searches subject for the first match of pattern. Index 0 of the result is the " ++
        "whole match, indexes 1..n are the capture groups and every named group is also stored " ++
        "under its name. A group that did not participate is null. Returns an empty array when " ++
        "nothing matches."
      examples :=
        [⟨"Numbered groups", "reg_match('(\\\\d)(\\\\d)(\\\\d)', 'abc123')",
          "\x7b0: 123, 1: 1, 2: 2, 3: 3\x7d"⟩,
         ⟨"Named groups are stored under their index and their name",
          "reg_match('abc(?<foo>\\\\d+)(xyz)', 'abc123xyz')",
          "\x7b0: abc123xyz, 1: 123, 2: xyz, foo: 123\x7d"⟩,
         ⟨"An optional group that did not participate", "reg_match('a(?<x>b)?c', 'ac')",
          "\x7b0: ac, 1: null, x: null\x7d"⟩,
         ⟨"Flags are passed with the pattern", "reg_match(array('ABC', 'i'), 'xabcx')[0]",
          "abc"⟩]
      thrown := [.format]
      treatments := patternTreatments }
    (withPattern firstMatch) checkPattern checkLiteralPattern

/-- Finds every match. -/
def regMatchAll : Function :=
  ofPure
    { name := "reg_match_all"
      arity := .fixed 2
      params := ["pattern", "subject"]
      docs := "Returns every match of pattern in subject as an array of match arrays, each " ++
        "shaped like the result of reg_match. Each search starts where the previous match ended."
      examples :=
        [⟨"Consecutive matches", "reg_match_all('(\\\\d\x7b3\x7d)', 'abc123456')",
          "\x7b\x7b0: 123, 1: 123\x7d, \x7b0: 456, 1: 456\x7d\x7d"⟩,
         ⟨"Reading a named group of the first match",
          "reg_match_all('abc(?<foo>\\\\d+)(xyz)', 'abc123xyz')[0]['foo']", "123"⟩,
         ⟨"No match", "reg_match_all('x', 'abc')", "\x7b\x7d"⟩]
      thrown := [.format]
      treatments := patternTreatments }
    (withPattern everyMatch) checkPattern checkLiteralPattern

/-- The call that replaces plain text, for a replacement whose pattern means nothing but a text. -/
def replaceRewrite (args : List Node) (place : Place) : Except Fault (Option Node) := do
  match ← literalPattern? args, args[1]?.bind Node.text? with
  | some p, some text => do
    let _ ← replacementOf text p
    match args with
    | [pattern, replacement, subject] =>
      match plainPattern? pattern with
      | some plain =>
        match Pattern.Replacement.forPlainText text plain with
        | .error e => .error (.replacement e)
        | .ok expanded =>
          pure (some (.call "replace" place
            [subject,
             .literal (.string (String.ofList plain)) pattern.place,
             .literal (.string (String.ofList expanded)) replacement.place] none))
      | none => pure none
    | _ => pure none
  | _, _ => pure none

/-- Replaces every match. -/
def regReplace : Function :=
  ofPure
    { name := "reg_replace"
      arity := .fixed 3
      params := ["pattern", "replacement", "subject"]
      docs := "Replaces every match of pattern in subject with replacement. The replacement may " ++
        "refer to groups with $n or $\x7bname\x7d; a backslash makes the next character " ++
        "literal. Referring to a group the pattern does not have is a FormatException."
      examples :=
        [⟨"Replace every digit", "reg_replace('\\\\d', 'Z', '123abc')", "ZZZabc"⟩,
         ⟨"Numbered backreference", "reg_replace('abc(\\\\d+)', '$1', 'abc123')", "123"⟩,
         ⟨"Named backreference",
          "reg_replace('abc(?<foo>\\\\d+)', '$\x7bfoo\x7d', 'abc123')", "123"⟩]
      thrown := [.format]
      treatments := patternTreatments }
    (fun args => do
      let p ← patternOf (arg args 0)
      let r ← replacementOf (arg args 1).render p
      pure (textValue (r.replaceAll p (subjectOf args 2))))
    (fun args => do
      let p ← patternOf (arg args 0)
      let _ ← replacementOf (arg args 1).render p
      pure ())
    replaceRewrite

/-- The call that splits at plain text, for a pattern that means nothing but a text. -/
def splitRewrite (args : List Node) (place : Place) : Except Fault (Option Node) := do
  match ← literalPattern? args, args with
  | some _, pattern :: rest =>
    match plainPattern? pattern with
    | some plain =>
      pure (some (.call "split" place
        (.literal (.string (String.ofList plain)) pattern.place :: rest) none))
    | none => pure none
  | _, _ => pure none

/-- Splits at matches. -/
def regSplit : Function :=
  ofPure
    { name := "reg_split"
      arity := .range 2 3
      params := ["pattern", "subject", "limit"]
      docs := "Splits subject on every match of pattern. The optional limit is the number of " ++
        "cuts allowed, so the result has at most limit + 1 elements; a limit of 0 still allows " ++
        "one cut and a negative limit allows any number."
      examples :=
        [⟨"Split on digits", "reg_split('\\\\d', 'a1b2c3d')", "\x7ba, b, c, d\x7d"⟩,
         ⟨"A limit of 0 allows one cut", "reg_split('\\\\d', 'a1b2c3', 0)", "\x7ba, b2c3\x7d"⟩,
         ⟨"At most limit + 1 elements", "reg_split('\\\\d', 'a1b2c3d', 2)",
          "\x7ba, b, c3d\x7d"⟩]
      thrown := [.format, .cast]
      treatments := [.kept, .rewritten, .droppable] }
    (fun args => do
      let p ← patternOf (arg args 0)
      let cuts ← cutsFor args[2]?
      pure (textsValue (splitAtMatches p cuts (subjectOf args 1))))
    (fun args => do
      let _ ← patternOf (arg args 0)
      let _ ← cutsFor args[2]?
      pure ())
    splitRewrite

/-- Counts the matches. -/
def regCount : Function :=
  ofPure
    { name := "reg_count"
      arity := .fixed 2
      params := ["pattern", "subject"]
      docs := "Counts the non-overlapping matches of pattern in subject."
      examples :=
        [⟨"Count digits", "reg_count('\\\\d', '123abc')", "3"⟩,
         ⟨"No match", "reg_count('x', 'abc')", "0"⟩]
      thrown := [.format]
      treatments := patternTreatments }
    (withPattern fun p subject => .integer (Int64.ofNat (p.program.findAll subject).length))
    checkPattern checkLiteralPattern

/-- Escapes a text for use as a pattern. -/
def regEscape : Function :=
  ofPure
    { name := "reg_escape"
      arity := .fixed 1
      params := ["text"]
      docs := "Escapes every regular expression metacharacter in text, so that it matches " ++
        "itself when used as a pattern."
      examples :=
        [⟨"Escape a pattern", "reg_escape('\\\\d+')", "\\\\d\\+"⟩,
         ⟨"Match text that contains metacharacters",
          "reg_count(reg_escape('a.b'), 'a.b axb')", "1"⟩]
      thrown := []
      treatments := [.validated, .kept, .droppable] }
    (fun args => .ok (textValue (Pattern.escape (charsOf args 0)))) noCheck noRewrite

end CallScript.Function
