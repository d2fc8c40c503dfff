import CallScript.Proofs.Engine.Moves

/-!
# Errors point at tokens

Every error of a script stands where something of the script starts (`Engine.Starts`): a token, the end of
the text, or the character at which the text could not be cut any further. And it is found there again,
by its line and column and by its offset in bytes (`Engine.PointsAt`).

That an error stands at a token is seen by moving its place and nothing else. If it were not the place
of a token, the tokens would stay as they are, and so would the error, but the error would have moved.

* `place_mem_of_compileTokens`, `place_mem_of_evalTokens`: the places of errors are places of tokens;
* `pointsAt_of_error`: the result for scripts.
-/

namespace CallScript.Engine

variable {r : Registry} {o : Options} {ts : List Token} {c : Error.Cause}

/-! ## 1. Moving one place -/

/-- Moves the one place, and nothing else. -/
def shift (q p : Place) : Place := if p = q then p.next ' ' else p

theorem shift_ne (q : Place) : shift q q ≠ q := by
  unfold shift
  rw [if_pos rfl]
  exact (Place.before_next q ' ').ne.symm

/-- Tokens that do not stand at the place stay where they are. -/
theorem map_move_shift {q : Place} (h : q ∉ ts.map Token.place) :
    ts.map (Token.move (shift q)) = ts := by
  have hstay : ∀ t ∈ ts, t.move (shift q) = t := by
    intro t ht
    have hne : t.place ≠ q := by
      rintro rfl
      exact h (List.mem_map_of_mem ht)
    exact congrArg (Token.mk t.kind) (if_neg hne)
  exact (List.map_congr_left hstay).trans (List.map_id ts)

/-- A cause that moves along with the tokens stands at one of them. -/
theorem place_mem_of_moves
    (h : ∀ q, ts.map (Token.move (shift q)) = ts → c.move (shift q) = c) :
    c.place ∈ ts.map Token.place := by
  refine Classical.byContradiction fun hnot => ?_
  have hplace := congrArg Error.Cause.place (h c.place (map_move_shift hnot))
  rw [Error.Cause.place_move] at hplace
  exact shift_ne c.place hplace

/-- **What keeps tokens from being compiled** stands at one of them. -/
theorem place_mem_of_compileTokens (hr : r.IgnoresPlaces) (hmark : ∃ t ∈ ts, t.kind = .eof)
    (h : compileTokens r o ts = .error c) : c.place ∈ ts.map Token.place := by
  refine place_mem_of_moves fun q hts => ?_
  have hmove := @compileTokens_move (shift q) r o ts hr hmark
  rw [hts, h] at hmove
  exact (Except.error.inj hmove).symm

/-- **What goes wrong with tokens** stands at one of them. -/
theorem place_mem_of_evalTokens (hr : r.IgnoresPlaces) (hmark : ∃ t ∈ ts, t.kind = .eof)
    {s : Session} (h : (evalTokens r o ts s).1 = .error c) : c.place ∈ ts.map Token.place := by
  refine place_mem_of_moves fun q hts => ?_
  have hmove := congrArg Prod.fst (@evalTokens_move (shift q) r o ts hr hmark s)
  rw [hts] at hmove
  dsimp only at hmove
  rw [h] at hmove
  exact (Except.error.inj hmove).symm

/-! ## 2. What errors point at -/

/-- At the place, with that text behind it, something of the script starts. -/
inductive Starts (source : String) (file : Option String) (p : Place) (after : List Char) : Prop
  /-- A token is read there. -/
  | token {ts : List Token} {t : Token} {rest : List Token.Located}
      (hscan : Token.scan source file = .ok ts) (ht : t ∈ ts)
      (hread : Token.lexeme? (Token.located p after) = some (t, rest))
  /-- The text ends there. -/
  | stop {ts : List Token} (hscan : Token.scan source file = .ok ts) (hend : after = [])
  /-- There is a character that was refused: no token is read at it. -/
  | refused {e : LexError} (hscan : Token.scan source file = .error e) (hplace : e.place = p)
      (hne : after ≠ []) (hread : Token.lexeme? (Token.located p after) = none)

/-- The error stands where something of the script starts, between these two parts of the text: in the
    line and the column that the part before it ends with, and at the offset of its end. -/
structure PointsAt (source : String) (file : Option String) (error : Error)
    (before after : List Char) : Prop where
  text : source.toList = before ++ after
  starts : Starts source file error.cause.place after
  file : error.cause.place.file = file
  line : error.cause.place.line = before.count '\n' + 1
  column : error.cause.place.column = (before.reverse.takeWhile (· ≠ '\n')).length + 1
  offset : error.region.offset = (String.ofList before).utf8ByteSize
  length : error.region.length = if after = [] then 0 else 1

section

variable {source : String} {file : Option String}

/-- A cause that stands behind a cut is found there. -/
theorem pointsAt_locate {before after : List Char} (htext : source.toList = before ++ after)
    (hplace : c.place = (⟨file, 1, 1⟩ : Place).after before)
    (hstarts : Starts source file c.place after) :
    PointsAt source file (Error.locate source c) before after := by
  have hregion : (Error.locate source c).region =
      ⟨(String.ofList before).utf8ByteSize, if after = [] then 0 else 1⟩ := by
    show c.place.region source = _
    rw [hplace]
    exact Place.region_after htext file
  refine ⟨htext, hstarts, ?_, ?_, ?_, ?_, ?_⟩
  · show c.place.file = file
    rw [hplace, Place.file_after]
  · show c.place.line = _
    rw [hplace, Place.line_after, Nat.add_comm]
  · show c.place.column = _
    rw [hplace, Place.column_after rfl]
  · rw [hregion]
  · rw [hregion]

/-- A cause that stands at a token points at it. -/
theorem pointsAt_of_mem (h : Token.scan source file = .ok ts)
    (hmem : c.place ∈ ts.map Token.place) :
    ∃ before after, PointsAt source file (Error.locate source c) before after := by
  obtain ⟨t, ht, hplace⟩ := List.mem_map.1 hmem
  obtain ⟨before, after, htext, hcut, hread⟩ := Token.exists_cut_of_scan h ht
  refine ⟨before, after, pointsAt_locate htext (hplace.symm.trans hcut) ?_⟩
  rcases hread with ⟨-, hend⟩ | ⟨rest, hread⟩
  · exact .stop h hend
  · rw [hplace] at hread
    exact .token h ht hread

/-- The failure to cut a text into tokens points at the character that was refused. -/
theorem pointsAt_of_scan_error {e : LexError} (h : Token.scan source file = .error e) :
    ∃ before after,
      PointsAt source file (Error.locate source (.lexical e)) before after := by
  obtain ⟨before, c, rest, htext, hplace, hread⟩ := Token.exists_cut_of_refused h
  refine ⟨before, c :: rest, pointsAt_locate htext hplace ?_⟩
  exact .refused h rfl (List.cons_ne_nil c rest) hread

end

/-! ## 3. Scripts -/

/-- With functions that do not look at places, errors point at something of the script. -/
theorem pointsAt_of_ignoresPlaces {e : Engine} (hr : e.registry.IgnoresPlaces) {source : String}
    {error : Error}
    (h : e.compile source = .error error ∨ (e.eval source).1 = .error error) :
    ∃ before after, PointsAt source e.options.file error before after := by
  cases hscan : Token.scan source e.options.file with
  | error err =>
      have hcompile := compile_of_scan_error hscan
      obtain rfl : Error.locate source (.lexical err) = error := by
        rcases h with h | h
        · exact Except.error.inj (hcompile.symm.trans h)
        · rw [eval_of_refused hcompile] at h
          exact Except.error.inj h
      exact pointsAt_of_scan_error hscan
  | ok ts =>
      have hmark := Token.exists_eof_of_scan hscan
      rcases h with h | h
      · rw [compile_of_scan hscan] at h
        obtain ⟨c, hc, rfl⟩ := Evaluator.mapError_eq_error h
        exact pointsAt_of_mem hscan (place_mem_of_compileTokens hr hmark hc)
      · rw [eval_of_scan hscan] at h
        obtain ⟨c, hc, rfl⟩ := Evaluator.mapError_eq_error h
        exact pointsAt_of_mem hscan (place_mem_of_evalTokens hr hmark hc)

/-- **Every error of a script points at something of it**: whether it is compiled or run, whatever the
    options and whatever was run before, an error stands at the first character of a token, at the end
    of the text, or at the character that was refused; its line and column are those of that
    character, its offset is the number of bytes in front of it, and its length is one, or zero at the
    end of the text. -/
theorem pointsAt_of_error {options : Options} {session : Session} {source : String} {error : Error}
    (h : (⟨.standard, options, session⟩ : Engine).compile source = .error error ∨
      ((⟨.standard, options, session⟩ : Engine).eval source).1 = .error error) :
    ∃ before after, PointsAt source options.file error before after :=
  pointsAt_of_ignoresPlaces (e := ⟨.standard, options, session⟩) Registry.ignoresPlaces_standard h

/-- A string with a character of two bytes, and in the next line a name with an integer behind it. -/
def strayInteger : String := "'\u00e9';\n x 1"

theorem cuts_strayInteger : Token.Cuts ⟨none, 1, 1⟩ strayInteger.toList
    [⟨.string "\u00e9", ⟨none, 1, 1⟩⟩, ⟨.semicolon, ⟨none, 1, 4⟩⟩, ⟨.ident "x", ⟨none, 2, 2⟩⟩,
      ⟨.integer "1", ⟨none, 2, 4⟩⟩] := by
  have hletter : Token.Writes (.string "\u00e9") ['\x27', '\u00e9', '\x27'] :=
    .string rfl (.plain '\u00e9' (by decide) (by decide) .nil)
  have hname : Token.IsName ['x'] := ⟨'x', [], rfl, rfl, nofun⟩
  have hnumber : Decimal.Numeral "1" := ⟨['1'], ⟨by decide, List.all_eq_true.1 rfl⟩, Or.inl rfl⟩
  refine @Token.Cuts.token _ ['\x27', '\u00e9', '\x27'] _ _ _ hletter (fun _ _ => rfl) ?_
  refine @Token.Cuts.token _ [';'] _ _ _ (.punctuation rfl) (fun _ _ => rfl) ?_
  refine .space rfl (.space rfl (@Token.Cuts.token _ ['x'] _ _ _ (.word hname) ?_ (.space rfl ?_)))
  · rintro c ⟨⟩
    rfl
  · refine @Token.Cuts.token _ "1".toList [] _ _ (.integer hnumber) ?_ (.stop _)
    rintro c ⟨⟩

/-- The integer may not stand there. -/
theorem compile_strayInteger (session : Session) :
    (⟨.standard, {}, session⟩ : Engine).compile strayInteger =
      .error (Error.locate strayInteger (.parse (.unexpectedToken ⟨none, 2, 4⟩ "1"))) := by
  have hscan : Token.scan strayInteger none = .ok _ := Token.scanFrom_of_cuts cuts_strayInteger _
  exact (compile_of_scan (e := ⟨.standard, {}, session⟩) hscan).trans rfl

theorem pointsAt_of_error_strayInteger :
    ∃ before after, PointsAt strayInteger none
      (Error.locate strayInteger (.parse (.unexpectedToken ⟨none, 2, 4⟩ "1"))) before after :=
  @pointsAt_of_error {} (.fresh Environment.empty) _ _ (Or.inl (compile_strayInteger _))

end CallScript.Engine
