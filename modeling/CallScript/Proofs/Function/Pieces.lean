import CallScript.Proofs.Function.Matches
import CallScript.Proofs.Pattern.InOrder
import CallScript.Proofs.Pattern.PlainMatches
import CallScript.Proofs.Pattern.PlainReplacement
import CallScript.Proofs.Value.Entries

/-!
# Pieces between matches

The calls that split at matches, replace them and count them go through the same matches, but for an
empty one at the beginning of the text, at which nothing is cut.

* `regSplit_pieces`: what is split can be put together again, and how many pieces a limit leaves;
* `regReplace_joins_regSplit`: replacing the matches by a text is splitting and joining with the
  text.
-/

namespace CallScript.Function

open Pattern (Match Subject InOrder Replacement)

/-! ## 1. Limits on cuts -/

/-- The number of cuts that a limit allows; `none` sets no bound. -/
inductive Allows : Option Value → Option Nat → Prop
  | absent : Allows none none
  | null : Allows (some .null) none
  | negative {v : Value} {n : Int64} (hv : v.toInteger = .ok n) (hn : n.toInt < 0) :
      Allows (some v) none
  | bound {v : Value} {n : Int64} (hv : v.toInteger = .ok n) (hn : 0 ≤ n.toInt) :
      Allows (some v) (some (max n.toInt.toNat 1))

/-- A limit is read as an integer, if it is one. -/
theorem cutsFor_of_toInteger {v : Value} {n : Int64} (h : v.toInteger = .ok n) :
    cutsFor (some v) = .ok (if 0 ≤ n.toInt then some (max n.toInt.toNat 1) else none) := by
  have hread : cutsFor (some v) = (v.toInteger >>= fun n =>
      pure (if 0 ≤ n.toInt then some (max n.toInt.toNat 1) else none)) := by
    cases v with
    | null => cases h
    | _ => rfl
  rw [hread, h]
  rfl

theorem Allows.cutsFor_eq {limit : Option Value} {cuts : Option Nat} (h : Allows limit cuts) :
    cutsFor limit = .ok cuts := by
  cases h with
  | absent => rfl
  | null => rfl
  | negative hv hn => rw [cutsFor_of_toInteger hv, if_neg (Int.not_le.2 hn)]
  | bound hv hn => rw [cutsFor_of_toInteger hv, if_pos hn]

/-- A number, but no more than the bound. -/
def atMost (bound : Option Nat) (n : Nat) : Nat :=
  match bound with
  | none => n
  | some b => min b n

theorem atMost_le (bound : Option Nat) (n : Nat) : atMost bound n ≤ n := by
  cases bound with
  | none => exact Nat.le_refl n
  | some b => exact Nat.min_le_right b n

theorem takeAtMost_eq_take {α : Type} (bound : Option Nat) (xs : List α) :
    takeAtMost bound xs = xs.take (atMost bound xs.length) := by
  cases bound with
  | none => exact List.take_length.symm
  | some b => exact List.take_eq_take_min

/-! ## 2. Pieces and the texts between them -/

/-- Pieces and texts in turn. -/
def interleave : List (List Char) → List (List Char) → List Char
  | piece :: pieces, text :: texts => piece ++ text ++ interleave pieces texts
  | pieces, _ => pieces.flatten

/-- Pieces with the same text between them are joined with the text. -/
theorem interleave_eq_intercalate {x : List Char} {texts pieces : List (List Char)}
    (hlength : pieces.length = texts.length + 1) (hall : ∀ text ∈ texts, text = x) :
    interleave pieces texts = x.intercalate pieces := by
  induction texts generalizing pieces with
  | nil =>
      obtain ⟨piece, rfl⟩ := List.length_eq_one_iff.1 hlength
      simp [interleave]
  | cons text texts ih =>
      obtain ⟨rfl, hall⟩ := List.forall_mem_cons.1 hall
      match pieces, hlength with
      | piece :: next :: pieces, hlength =>
          have hjoin := @ih (next :: pieces) (by simpa using hlength) hall
          rw [interleave, hjoin, List.intercalate_cons_cons]

section

variable {subject : Subject} {place : Nat} {ms : List Match}

/-- There is one piece more than there are matches. -/
theorem length_piecesBetween (subject : Subject) (place : Nat) (ms : List Match) :
    (piecesBetween subject place ms).length = ms.length + 1 := by
  induction ms generalizing place with
  | nil => rfl
  | cons m ms ih => rw [piecesBetween, List.length_cons, List.length_cons, ih]

theorem piecesBetween_ne_nil (subject : Subject) (place : Nat) (ms : List Match) :
    piecesBetween subject place ms ≠ [] := by
  rw [← List.length_pos_iff, length_piecesBetween]
  exact Nat.succ_pos _

/-- **Nothing is lost between matches in order**: pieces and matches in turn are the subject. -/
theorem interleave_piecesBetween (h : InOrder subject.size place ms) :
    interleave (piecesBetween subject place ms) (ms.map (Match.text subject)) =
      subject.toList.drop place := by
  induction h with
  | nil => simp [piecesBetween, interleave, Pattern.slice_to_end]
  | cons within rest ih =>
      rw [piecesBetween, List.map_cons, interleave, ih,
        Pattern.drop_eq_slice_append subject within.1,
        Pattern.drop_eq_slice_append subject within.2.1, List.append_assoc]
      rfl

/-- The pieces between the first matches are the first pieces, but for the last of them. -/
theorem dropLast_piecesBetween_take (subject : Subject) (place : Nat) (ms : List Match) (n : Nat) :
    (piecesBetween subject place (ms.take n)).dropLast <+: piecesBetween subject place ms := by
  induction ms generalizing place n with
  | nil =>
      rw [List.take_nil]
      exact List.dropLast_prefix _
  | cons m ms ih =>
      cases n with
      | zero => exact List.nil_prefix
      | succ n =>
          rw [List.take_succ_cons, piecesBetween, piecesBetween,
            List.dropLast_cons_of_ne_nil (piecesBetween_ne_nil _ _ _), List.cons_prefix_cons]
          exact ⟨rfl, ih m.stop n⟩

/-- Replacing puts other texts between the pieces. -/
theorem replaceFrom_eq_interleave (r : Replacement) (subject : Subject) (place : Nat)
    (ms : List Match) :
    r.replaceFrom subject place ms =
      interleave (piecesBetween subject place ms) (ms.map (r.forMatch subject)) := by
  induction ms generalizing place with
  | nil => simp [Replacement.replaceFrom, piecesBetween, interleave]
  | cons m ms ih => rw [Replacement.replaceFrom, piecesBetween, List.map_cons, interleave, ih]

end

/-! ## 3. Splitting -/

/-- The matches at which a subject may be cut: those that do not end where it begins. -/
def cuttingMatches (p : Pattern) (subject : Subject) : List Match :=
  (p.program.findAll subject).filter fun m => m.stop ≠ 0

theorem inOrder_cuttingMatches (p : Pattern) (subject : Subject) :
    InOrder subject.size 0 (cuttingMatches p subject) :=
  (Pattern.inOrder_findAll p.program subject).sublist List.filter_sublist

theorem splitAtMatches_eq (p : Pattern) (cuts : Option Nat) (subject : Subject) :
    splitAtMatches p cuts subject =
      piecesBetween subject 0
        ((cuttingMatches p subject).take (atMost cuts (cuttingMatches p subject).length)) := by
  rw [← takeAtMost_eq_take]
  rfl

/-- There is one piece more than there are cuts. -/
theorem length_splitAtMatches (p : Pattern) (cuts : Option Nat) (subject : Subject) :
    (splitAtMatches p cuts subject).length =
      atMost cuts (cuttingMatches p subject).length + 1 := by
  rw [splitAtMatches_eq, length_piecesBetween, List.length_take,
    Nat.min_eq_left (atMost_le cuts _)]

theorem splitAtMatches_none (p : Pattern) (subject : Subject) :
    splitAtMatches p none subject = piecesBetween subject 0 (cuttingMatches p subject) := rfl

variable {pattern : Value} {p : Pattern}

/-- **Splitting loses nothing and keeps to its limit.** It cuts at the first matches, as many as the
    limit allows, and leaves one piece more; the pieces and the matches in turn are the text; and the
    pieces are those of a split without a limit, but for the last one. -/
theorem regSplit_pieces (hp : patternOf pattern = .ok p) {limit : Option Value}
    {cuts : Option Nat} (hc : Allows limit cuts) (v : Value) (place : Place) (w : World) :
    ∃ ms n parts all,
      ms = cuttingMatches p v.render.toList.toArray ∧ n = atMost cuts ms.length ∧
      regSplit.execute (pattern :: v :: limit.toList) place w = (.ok (textsValue parts), w) ∧
      regSplit.execute [pattern, v] place w = (.ok (textsValue all), w) ∧
      parts.length = n + 1 ∧
      interleave parts ((ms.take n).map (Match.text v.render.toList.toArray)) = v.render.toList ∧
      parts.dropLast <+: all ∧
      (parts.length < 2 ^ 63 → ∃ t, textsValue parts = .array t ∧ t.size = n + 1 ∧
        t.values = parts.map textValue) := by
  have hcut := splitAtMatches_eq p cuts v.render.toList.toArray
  have horder := (inOrder_cuttingMatches p v.render.toList.toArray).sublist
    (List.take_sublist (atMost cuts (cuttingMatches p v.render.toList.toArray).length) _)
  have hlength := length_splitAtMatches p cuts v.render.toList.toArray
  refine ⟨_, _, _, _, rfl, rfl, regSplit_execute hp hc.cutsFor_eq v place w,
    @regSplit_execute p pattern hp none none rfl v place w, hlength, ?_, ?_, fun hsize => ?_⟩
  · rw [hcut]
    exact interleave_piecesBetween horder
  · rw [hcut, splitAtMatches_none]
    exact dropLast_piecesBetween_take _ 0 _ _
  · rw [← @List.length_map _ _ _ textValue] at hsize
    refine ⟨_, rfl, ?_, Table.values_ofList hsize⟩
    rw [Table.size_ofList hsize, List.length_map, hlength]

/-- In `bab` the program of `a*` finds the empty text at the beginning, the letter, and the empty text
    at the end. -/
theorem findAll_star :
    starProgram.findAll #['b', 'a', 'b'] = [⟨0, 0, #[]⟩, ⟨1, 2, #[]⟩, ⟨3, 3, #[]⟩] := by
  have hfirst : starProgram.search #['b', 'a', 'b'] 0 = some ⟨0, 0, #[]⟩ :=
    starProgram_search (by decide)
  have hletter : starProgram.search #['b', 'a', 'b'] 1 = some ⟨1, 2, #[]⟩ :=
    starProgram_search (by decide)
  have hagain : starProgram.search #['b', 'a', 'b'] 2 = some ⟨2, 2, #[]⟩ :=
    starProgram_search (by decide)
  have hlast : starProgram.search #['b', 'a', 'b'] 3 = some ⟨3, 3, #[]⟩ :=
    starProgram_search (by decide)
  have hnone : starProgram.search #['b', 'a', 'b'] 4 = none := rfl
  have hfind := (Pattern.Program.nextMatch?_of_empty hfirst ⟨rfl, rfl⟩).trans hletter
  have hend := (Pattern.Program.nextMatch?_of_empty hagain ⟨rfl, rfl⟩).trans hlast
  have hstop := (Pattern.Program.nextMatch?_of_empty hlast ⟨rfl, rfl⟩).trans hnone
  unfold Pattern.Program.findAll
  rw [hfirst]
  dsimp only
  rw [Pattern.Program.findBehind_some hfind, Pattern.Program.findBehind_some hend,
    Pattern.Program.findBehind_none hstop]

/-- A limit of zero allows one cut: there are two pieces of `bab` and the letter is between them. -/
theorem regSplit_pieces_star :
    ∃ p parts all, patternOf (.string "a*") = .ok p ∧ Allows (some (.integer 0)) (some 1) ∧
      regSplit.execute [.string "a*", .string "bab", .integer 0] default (.fresh .empty) =
        (.ok (textsValue parts), .fresh .empty) ∧
      regSplit.execute [.string "a*", .string "bab"] default (.fresh .empty) =
        (.ok (textsValue all), .fresh .empty) ∧
      parts.length = 2 ∧ interleave parts [['a']] = "bab".toList ∧ parts.dropLast <+: all := by
  obtain ⟨p, hp, hprogram⟩ := patternOf_star
  have hzero : (Value.integer 0).toInteger = .ok 0 := rfl
  have hc : Allows (some (.integer 0)) (some 1) := .bound hzero (by decide)
  have hall : p.program.findAll (Value.string "bab").render.toList.toArray =
      [⟨0, 0, #[]⟩, ⟨1, 2, #[]⟩, ⟨3, 3, #[]⟩] := hprogram ▸ findAll_star
  have hms : cuttingMatches p (Value.string "bab").render.toList.toArray =
      [⟨1, 2, #[]⟩, ⟨3, 3, #[]⟩] := by
    rw [cuttingMatches, hall]
    rfl
  obtain ⟨ms, n, parts, all, rfl, rfl, hparts, hsplit, hlength, htext, hprefix, -⟩ :=
    regSplit_pieces hp hc (.string "bab") default (.fresh .empty)
  rw [hms] at hlength htext
  exact ⟨p, parts, all, hp, hc, hparts, hsplit, hlength, htext, hprefix⟩

/-! ## 4. Replacing -/

/-- An escaped text is a replacement that means the text. -/
theorem replacementOf_escape (x : List Char) (p : Pattern) :
    replacementOf (String.ofList (Replacement.escape x)) p = .ok (Replacement.ofText x) := by
  unfold replacementOf Replacement.parse
  rw [String.toList_ofList, Replacement.parse_escape]
  rfl

theorem replacementOf_wholeMatch (p : Pattern) :
    replacementOf "$0" p = .ok Replacement.wholeMatch := by
  unfold replacementOf Replacement.parse
  rw [show "$0".toList = ['$', '0'] from rfl, Replacement.parse_wholeMatch]
  rfl

/-- Replacing the matches by a text is joining the pieces between them with it. -/
theorem replaceFrom_ofText (x : List Char) (subject : Subject) (place : Nat) (ms : List Match) :
    (Replacement.ofText x).replaceFrom subject place ms =
      x.intercalate (piecesBetween subject place ms) := by
  rw [replaceFrom_eq_interleave]
  refine interleave_eq_intercalate ?_ fun text htext => ?_
  · rw [length_piecesBetween, List.length_map]
  · obtain ⟨m, -, rfl⟩ := List.mem_map.1 htext
    exact Replacement.expand_ofText x _

/-- An empty match at the beginning has the empty piece in front of it. -/
theorem intercalate_of_startsEmpty {subject : Subject} (x : List Char)
    (h : p.program.StartsEmpty subject) :
    (piecesBetween subject 0 (cuttingMatches p subject)).length =
        (p.program.findAll subject).length ∧
      x.intercalate (piecesBetween subject 0 (p.program.findAll subject)) =
        x ++ x.intercalate (piecesBetween subject 0 (cuttingMatches p subject)) := by
  obtain ⟨m, hstart, hstop, hcons⟩ := Pattern.findAll_of_startsEmpty h
  have hcons : p.program.findAll subject = m :: cuttingMatches p subject := hcons
  have hpiece : piecesBetween subject 0 (m :: cuttingMatches p subject) =
      [] :: piecesBetween subject 0 (cuttingMatches p subject) := by
    rw [piecesBetween, hstart, hstop, Pattern.slice_eq, Nat.sub_zero, List.take_zero]
  refine ⟨?_, ?_⟩
  · rw [length_piecesBetween, hcons, List.length_cons]
  · rw [hcons, hpiece, List.intercalate_cons_of_ne_nil (piecesBetween_ne_nil _ _ _),
      List.nil_append]

/-- Replacing each match by itself changes nothing. -/
theorem replaceAll_wholeMatch (p : Pattern) (subject : Subject) :
    Replacement.wholeMatch.replaceAll p subject = subject.toList := by
  have hself : Replacement.wholeMatch.forMatch subject = Match.text subject :=
    funext fun m => Replacement.forMatch_wholeMatch subject m
  unfold Replacement.replaceAll
  rw [replaceFrom_eq_interleave, hself,
    interleave_piecesBetween (Pattern.inOrder_findAll p.program subject)]
  rfl

/-- **Splitting, replacing and counting go through the same matches.** There is one piece more than
    matches are counted, and replacing the matches by a text gives the pieces joined with the text.
    But nothing is cut at an empty match at the beginning: then there are as many pieces as matches,
    and the replaced text has the text in front. And replacing each match by itself gives the text
    back. -/
theorem regReplace_joins_regSplit (hp : patternOf pattern = .ok p) (v : Value) (x : String)
    (place : Place) (w : World) :
    ∃ k parts, k = (p.program.findAll v.render.toList.toArray).length ∧
      k ≤ v.render.length + 1 ∧
      regCount.execute [pattern, v] place w = (.ok (.integer (Int64.ofNat k)), w) ∧
      regSplit.execute [pattern, v] place w = (.ok (textsValue parts), w) ∧
      (¬ p.program.StartsEmpty v.render.toList.toArray → parts.length = k + 1 ∧
        regReplace.execute [pattern, .string (String.ofList (Replacement.escape x.toList)), v]
          place w = (.ok (textValue (x.toList.intercalate parts)), w)) ∧
      (p.program.StartsEmpty v.render.toList.toArray → parts.length = k ∧
        regReplace.execute [pattern, .string (String.ofList (Replacement.escape x.toList)), v]
          place w = (.ok (textValue (x.toList ++ x.toList.intercalate parts)), w)) ∧
      regReplace.execute [pattern, .string "$0", v] place w = (.ok (.string v.render), w) := by
  have hsplit := @regSplit_execute p pattern hp none none rfl v place w
  rw [splitAtMatches_none] at hsplit
  have hreplace := @regReplace_execute p pattern hp
    (.string (String.ofList (Replacement.escape x.toList))) _ (replacementOf_escape x.toList p) v
    place w
  have hself := @regReplace_execute p pattern hp (.string "$0") _ (replacementOf_wholeMatch p) v
    place w
  rw [replaceAll_wholeMatch] at hself
  rw [Replacement.replaceAll, replaceFrom_ofText] at hreplace
  refine ⟨_, _, rfl, ?_, @regCount_execute [pattern, v] p hp place w, hsplit, ?_, ?_, ?_⟩
  · rw [← String.length_toList]
    exact p.program.length_findAll_le v.render.toList.toArray
  · intro h
    rw [cuttingMatches, Pattern.filter_findAll h, length_piecesBetween]
    exact ⟨rfl, hreplace⟩
  · intro h
    obtain ⟨hlength, hjoin⟩ := intercalate_of_startsEmpty x.toList h
    exact ⟨hlength, hjoin ▸ hreplace⟩
  · rw [hself]
    simp [textValue]

/-- In `bab` three matches are counted, the first of them at the beginning. With a `$` for each there
    is one in front of the three pieces and one between any two. -/
theorem regReplace_joins_regSplit_star :
    ∃ p parts, patternOf (.string "a*") = .ok p ∧
      regCount.execute [.string "a*", .string "bab"] default (.fresh .empty) =
        (.ok (.integer 3), .fresh .empty) ∧
      regSplit.execute [.string "a*", .string "bab"] default (.fresh .empty) =
        (.ok (textsValue parts), .fresh .empty) ∧
      parts.length = 3 ∧
      regReplace.execute [.string "a*", .string "\\$", .string "bab"] default (.fresh .empty) =
        (.ok (textValue ('$' :: ['$'].intercalate parts)), .fresh .empty) ∧
      regReplace.execute [.string "a*", .string "$0", .string "bab"] default (.fresh .empty) =
        (.ok (.string "bab"), .fresh .empty) := by
  obtain ⟨p, hp, hprogram⟩ := patternOf_star
  have hall : p.program.findAll (Value.string "bab").render.toList.toArray =
      [⟨0, 0, #[]⟩, ⟨1, 2, #[]⟩, ⟨3, 3, #[]⟩] := hprogram ▸ findAll_star
  obtain ⟨k, parts, rfl, -, hcount, hsplit, -, hstart, hself⟩ :=
    regReplace_joins_regSplit hp (.string "bab") "$" default (.fresh .empty)
  have hempty : p.program.StartsEmpty (Value.string "bab").render.toList.toArray := by
    unfold Pattern.Program.StartsEmpty
    rw [hall]
    exact ⟨_, rfl, rfl, rfl⟩
  obtain ⟨hlength, hreplace⟩ := hstart hempty
  rw [hall] at hcount hlength
  exact ⟨p, parts, hp, hcount, hsplit, hlength, hreplace, hself⟩

end CallScript.Function
