import CallScript.Proofs.Engine.Pointing
import CallScript.Proofs.Token.Refusal

/-!
# Cutting out the region of an error

The region of an error is a number of bytes in front of it and a number of bytes from there on. The bytes in
front are whole characters, for any place and any source. From there on it is one byte, whatever the
character. So the region can be cut out of the source (`Place.Region.Slices`) unless it starts at a
character of more bytes.

* `region_slices_iff`: this for any place;
* `slices_of_mem`: at a token there is an ASCII character, or the end of the text;
* `slices_iff_of_errorOf`: so the only errors of a script whose region cannot be cut out are those about a
  character outside of ASCII that starts no token.
-/

namespace CallScript

open String.Pos.Raw (isValid_append isValid_iff_exists_append isValid_singleton)

namespace Place

/-! ## 1. Regions and characters -/

/-- The region can be cut out of the source: both its ends lie in it, in front of or behind a character. -/
structure Region.Slices (g : Region) (source : String) : Prop where
  start : (⟨g.offset⟩ : String.Pos.Raw).IsValid source
  stop : (⟨g.offset + g.length⟩ : String.Pos.Raw).IsValid source

/-- The region starts with the character. -/
def Region.StartsWith (g : Region) (source : String) (c : Char) : Prop :=
  ∃ before after, source.toList = before ++ c :: after ∧
    (String.ofList before).utf8ByteSize = g.offset

variable {source : String} {before after : List Char} {c : Char}

theorem ofList_cons (c : Char) (cs : List Char) :
    String.ofList (c :: cs) = String.singleton c ++ String.ofList cs := by
  rw [String.singleton_eq_ofList, ← String.ofList_append]
  rfl

/-- A cut lies between characters. -/
theorem isValid_cut (h : source.toList = before ++ after) :
    (⟨(String.ofList before).utf8ByteSize⟩ : String.Pos.Raw).IsValid source := by
  rw [← String.ofList_toList (s := source), h, String.ofList_append]
  exact isValid_iff_exists_append.2 ⟨_, _, rfl, rfl⟩

/-- One byte behind a cut, there is a boundary exactly if the character there has one byte. -/
theorem isValid_succ_iff (h : source.toList = before ++ c :: after) :
    (⟨(String.ofList before).utf8ByteSize + 1⟩ : String.Pos.Raw).IsValid source ↔
      c.utf8Size = 1 := by
  have hpos := c.utf8Size_pos
  constructor
  · intro hvalid
    rw [← String.ofList_toList (s := source), h, String.ofList_append, ofList_cons,
      isValid_append] at hvalid
    obtain hfront | ⟨-, hvalid⟩ := hvalid
    · have hle := hfront.le_utf8ByteSize
      dsimp only at hle
      omega
    · obtain hchar | ⟨hle, -⟩ := isValid_append.1 hvalid
      · have hend := isValid_singleton.1 hchar
        simp [String.Pos.Raw.ext_iff] at hend
        omega
      · simp [String.Pos.Raw.le_iff] at hle
        omega
  · intro hone
    have hcut : source.toList = (before ++ [c]) ++ after := by rw [h, List.append_assoc]; rfl
    have hsize : (String.ofList (before ++ [c])).utf8ByteSize =
        (String.ofList before).utf8ByteSize + 1 := by
      rw [String.ofList_append, String.utf8ByteSize_append, ← String.singleton_eq_ofList,
        String.utf8ByteSize_singleton, hone]
    exact hsize ▸ isValid_cut hcut

/-- **The offset of a place counts whole characters**, whether or not the place is reached. -/
theorem exists_cut_of_offsetFrom (p here : Place) (cs : List Char) :
    ∃ before after, cs = before ++ after ∧
      p.offsetFrom here cs = (String.ofList before).utf8ByteSize := by
  induction cs generalizing here with
  | nil => exact ⟨[], [], rfl, rfl⟩
  | cons c cs ih =>
      rw [offsetFrom]
      split
      · exact ⟨[], c :: cs, rfl, rfl⟩
      · obtain ⟨before, after, rfl, hoffset⟩ := ih (here.next c)
        refine ⟨c :: before, after, rfl, ?_⟩
        rw [hoffset, utf8ByteSize_ofList_cons]

/-- The region of a place starts at a cut, and it is one byte long unless the text ends there. -/
theorem exists_cut_of_region (p : Place) (source : String) :
    ∃ before after, source.toList = before ++ after ∧
      p.region source = ⟨(String.ofList before).utf8ByteSize, if after = [] then 0 else 1⟩ := by
  obtain ⟨before, after, htext, hoffset⟩ := exists_cut_of_offsetFrom p default source.toList
  exact ⟨before, after, htext, region_of_offset htext hoffset⟩

/-- A region that starts at a cut can be cut out exactly if the character behind the cut has one byte. -/
theorem slices_iff_of_cut {g : Region} (h : source.toList = before ++ after)
    (hg : g = ⟨(String.ofList before).utf8ByteSize, if after = [] then 0 else 1⟩) :
    g.Slices source ↔ ∀ c ∈ after.head?, c.utf8Size = 1 := by
  subst hg
  have hstart := isValid_cut h
  cases after with
  | nil => exact ⟨fun _ => nofun, fun _ => ⟨hstart, hstart⟩⟩
  | cons c after =>
      have hstop := isValid_succ_iff h
      refine ⟨fun hg d hd => ?_, fun hone => ⟨hstart, hstop.2 (hone c rfl)⟩⟩
      obtain rfl : c = d := Option.some.inj hd
      exact hstop.1 hg.stop

/-- **The region of any place lies within the source and starts between characters**, and it can be cut out
    exactly if it does not start with a character of several bytes. -/
theorem region_slices_iff (p : Place) (source : String) :
    (⟨(p.region source).offset⟩ : String.Pos.Raw).IsValid source ∧
      (p.region source).offset + (p.region source).length ≤ source.utf8ByteSize ∧
      ((p.region source).Slices source ↔
        ∀ c, (p.region source).StartsWith source c → c.utf8Size = 1) := by
  obtain ⟨before, after, htext, hregion⟩ := exists_cut_of_region p source
  have hvalid : (⟨(p.region source).offset⟩ : String.Pos.Raw).IsValid source := by
    rw [hregion]
    exact isValid_cut htext
  refine ⟨hvalid, ?_, fun hg c hc => ?_, fun hone => ?_⟩
  · have hle : (p.region source).offset ≤ source.utf8ByteSize := hvalid.le_utf8ByteSize
    show _ + (if (p.region source).offset < source.utf8ByteSize then 1 else 0) ≤ _
    split <;> omega
  · obtain ⟨before', after', htext', hoffset⟩ := hc
    have hregion' := region_of_offset htext' hoffset.symm
    exact (slices_iff_of_cut htext' hregion').1 hg c rfl
  · refine (slices_iff_of_cut htext hregion).2 fun c hc => hone c ?_
    cases after with
    | nil => cases hc
    | cons d after =>
        obtain rfl : d = c := Option.some.inj hc
        exact ⟨before, after, htext, congrArg Region.offset hregion.symm⟩

end Place

/-! ## 2. Tokens start with ASCII characters -/

namespace Token

theorem utf8Size_of_le {c bound : Char} (h : c.val ≤ bound.val) (hbound : bound.val ≤ 127) :
    c.utf8Size = 1 :=
  Char.utf8Size_eq_one_iff.2 (UInt32.le_trans h hbound)

theorem utf8Size_of_isAlpha {c : Char} (h : c.isAlpha = true) : c.utf8Size = 1 := by
  rcases Bool.or_eq_true_iff.1 h with h | h
  · have hle : c.val ≤ 'Z'.val := (of_decide_eq_true h).2
    exact utf8Size_of_le hle (by decide)
  · have hle : c.val ≤ 'z'.val := of_decide_eq_true (Bool.and_eq_true_iff.1 h).2
    exact utf8Size_of_le hle (by decide)

theorem utf8Size_of_isDigit {c : Char} (h : c.isDigit = true) : c.utf8Size = 1 := by
  have hle : c.val ≤ '9'.val := of_decide_eq_true (Bool.and_eq_true_iff.1 h).2
  exact utf8Size_of_le hle (by decide)

theorem utf8Size_of_isQuote {c : Char} (h : isQuote c = true) : c.utf8Size = 1 := by
  rcases (by simpa [isQuote] using h) with rfl | rfl
  · rfl
  · rfl

/-- **What writes a token starts with a character of one byte.** -/
theorem utf8Size_of_writes {kind : Kind} {written : List Char} (h : Writes kind written) :
    ∃ c cs, written = c :: cs ∧ c.utf8Size = 1 := by
  cases h with
  | @punctuation c _ h =>
      refine ⟨c, [], rfl, ?_⟩
      have hmem := mem_of_punctuation? h
      simp only [List.mem_cons, List.not_mem_nil, or_false] at hmem
      rcases hmem with rfl | rfl | rfl | rfl | rfl | rfl <;> rfl
  | @string quote text written hq h => exact ⟨quote, _, rfl, utf8Size_of_isQuote hq⟩
  | word h =>
      obtain ⟨c, cs, rfl, hc, -⟩ := h
      refine ⟨c, cs, rfl, ?_⟩
      rcases Bool.or_eq_true_iff.1 hc with hc | hc
      · exact utf8Size_of_isAlpha hc
      · obtain rfl := of_decide_eq_true hc
        rfl
  | @integer written h =>
      obtain ⟨ds, ⟨hne, hall⟩, htext | htext⟩ := h
      · cases ds with
        | nil => exact absurd rfl hne
        | cons c ds => exact ⟨c, ds, htext, utf8Size_of_isDigit (hall c List.mem_cons_self)⟩
      · exact ⟨'-', ds, htext, rfl⟩

end Token

namespace Engine

variable {r : Registry} {o : Options} {ts : List Token} {c : Error.Cause} {source : String}
  {file : Option String}

/-- **At a token there is an ASCII character, or the end of the text**: the region of an error there can be
    cut out. -/
theorem slices_of_mem (h : Token.scan source file = .ok ts) (hmem : c.place ∈ ts.map Token.place) :
    (Error.locate source c).region.Slices source := by
  obtain ⟨t, ht, hplace⟩ := List.mem_map.1 hmem
  obtain ⟨before, after, htext, hcut, hread⟩ := Token.exists_cut_of_scan h ht
  have hregion : (Error.locate source c).region =
      ⟨(String.ofList before).utf8ByteSize, if after = [] then 0 else 1⟩ := by
    show c.place.region source = _
    rw [← hplace, hcut]
    exact Place.region_after htext file
  refine (Place.slices_iff_of_cut htext hregion).2 fun d hd => ?_
  rcases hread with ⟨-, rfl⟩ | ⟨rest, hread⟩
  · cases hd
  · obtain ⟨kind, written, behind, -, rfl, hw, -⟩ := Token.exists_writes_of_lexeme? hread
    obtain ⟨e, cs, rfl, hone⟩ := Token.utf8Size_of_writes hw
    obtain rfl : e = d := Option.some.inj hd
    exact hone

/-! ## 3. Errors of a script -/

/-- What keeps tokens from being compiled is not that the text could not be cut. -/
theorem not_lexical_of_compileTokens (h : compileTokens r o ts = .error c) (e : LexError) :
    c ≠ .lexical e := by
  rintro rfl
  unfold compileTokens at h
  split at h
  · cases h
  · split at h
    · obtain ⟨_, -, he⟩ := Evaluator.mapError_eq_error h
      cases he
    · cases h

/-- What goes wrong with a compiled program stands at a token of the script, whatever the engine that runs
    it: moving other places moves nothing of the program. -/
theorem place_mem_of_compiled {r' : Registry} (hr : r.IgnoresPlaces) (hr' : r'.IgnoresPlaces)
    (hmark : ∃ t ∈ ts, t.kind = .eof) {p : Program} (hp : compileTokens r o ts = .ok p)
    {limit : Nat} {s : Session} {e : RuntimeError}
    (h : ((Evaluator.eval r' limit p).result s).1 = .error e) : e.place ∈ ts.map Token.place := by
  refine place_mem_of_moves (c := .runtime e) fun q hts => ?_
  have hmove := @compileTokens_move (shift q) r o ts hr hmark
  rw [hts, hp] at hmove
  have hstay : p.map (Node.move (shift q)) = p := (Except.ok.inj hmove).symm
  have hrun := congrArg Prod.fst (@Evaluator.moves_eval (shift q) r' limit hr' p s)
  rw [hstay, h] at hrun
  exact congrArg Error.Cause.runtime (Except.error.inj hrun).symm

/-- The error is one that the script can lead to: when it is read, which includes cutting it into tokens,
    when it is compiled, when it is evaluated, and when what it was compiled to is run by some engine. The
    functions do not look at places. -/
inductive ErrorOf (source : String) (error : Error) : Prop
  | parse {e : Engine} (h : e.parse source = .error error)
  | compile {e : Engine} (hr : e.registry.IgnoresPlaces) (h : e.compile source = .error error)
  | eval {e : Engine} (hr : e.registry.IgnoresPlaces) (h : (e.eval source).1 = .error error)
  | run {e e' : Engine} {program : Program} (hr : e.registry.IgnoresPlaces)
      (hr' : e'.registry.IgnoresPlaces) (hp : e.compile source = .ok program)
      (h : (e'.run program source).1 = .error error)

/-- The error is that the script could not be cut into tokens, or it is another one and stands at a token. -/
def Placed (source : String) (error : Error) : Prop :=
  (∃ file e, Token.scan source file = .error e ∧ error = Error.locate source (.lexical e)) ∨
    ∃ file ts c, Token.scan source file = .ok ts ∧ c.place ∈ ts.map Token.place ∧
      (∀ e, c ≠ .lexical e) ∧ error = Error.locate source c

section

variable {e e' : Engine} {error : Error}

theorem placed_of_compile (hr : e.registry.IgnoresPlaces) (h : e.compile source = .error error) :
    Placed source error := by
  cases hscan : Token.scan source e.options.file with
  | error err =>
      rw [compile_of_scan_error hscan] at h
      exact Or.inl ⟨_, err, hscan, (Except.error.inj h).symm⟩
  | ok ts =>
      rw [compile_of_scan hscan] at h
      obtain ⟨c, hc, rfl⟩ := Evaluator.mapError_eq_error h
      have hmem := place_mem_of_compileTokens hr (Token.exists_eof_of_scan hscan) hc
      exact Or.inr ⟨_, ts, c, hscan, hmem, not_lexical_of_compileTokens hc, rfl⟩

theorem placed_of_run {program : Program} (hr : e.registry.IgnoresPlaces)
    (hr' : e'.registry.IgnoresPlaces) (hp : e.compile source = .ok program)
    (h : (e'.run program source).1 = .error error) : Placed source error := by
  obtain ⟨ts, hscan, hcompile⟩ := exists_tokens_of_compile hp
  rw [run_of_result rfl] at h
  obtain ⟨err, herr, rfl⟩ := Evaluator.mapError_eq_error h
  have hmem := place_mem_of_compiled hr hr' (Token.exists_eof_of_scan hscan) hcompile herr
  exact Or.inr ⟨_, ts, .runtime err, hscan, hmem, nofun, rfl⟩

/-- **Every error of a script** is that it could not be cut, or it stands at a token. -/
theorem ErrorOf.placed (h : ErrorOf source error) : Placed source error := by
  cases h with
  | @parse e h =>
      -- an engine that does not optimize compiles what it reads
      have hcompile : (⟨.standard, { e.options with optimize := false }, e.session⟩ :
          Engine).compile source = .error error := by
        have hparse : (⟨.standard, { e.options with optimize := false }, e.session⟩ :
            Engine).parse source = .error error := h
        unfold Engine.compile
        rw [hparse]
      exact placed_of_compile Registry.ignoresPlaces_standard hcompile
  | compile hr h => exact placed_of_compile hr h
  | @eval e hr h =>
      cases hp : e.compile source with
      | error err =>
          rw [eval_of_refused hp] at h
          cases h
          exact placed_of_compile hr hp
      | ok program =>
          rw [eval_of_compiled hp] at h
          exact placed_of_run hr hr hp h
  | run hr hr' hp h => exact placed_of_run hr hr' hp h

end

/-- A text that is refused can be cut out at the refused character exactly if that is not one of several
    bytes. A quote is none. -/
theorem slices_iff_of_refused {e : LexError} (h : Token.scan source file = .error e) :
    (Error.locate source (.lexical e)).region.Slices source ↔
      ∀ p c, e = .unexpectedCharacter p c → c.utf8Size = 1 := by
  obtain ⟨before, c, rest, ts, htext, -, -, -, -, rfl⟩ := Token.exists_leading_of_refused h rfl
  have hregion : (Error.locate source (.lexical (Token.refuse ⟨c, (⟨file, 1, 1⟩ : Place).after
      before⟩))).region = ⟨(String.ofList before).utf8ByteSize, if c :: rest = [] then 0 else 1⟩ := by
    show (Token.refuse _).place.region source = _
    rw [Token.place_refuse]
    exact Place.region_after htext file
  rw [Place.slices_iff_of_cut htext hregion]
  unfold Token.refuse
  split
  · next hquote =>
    refine ⟨fun _ => nofun, fun _ d hd => ?_⟩
    obtain rfl : c = d := Option.some.inj hd
    exact Token.utf8Size_of_isQuote hquote
  · refine ⟨fun hone p d hd => ?_, fun hone d hd => ?_⟩
    · cases hd
      exact hone c rfl
    · obtain rfl : c = d := Option.some.inj hd
      exact hone _ c rfl

/-- **Where errors can be cut out of their source.** Whatever the error and whatever the source, its region
    lies within the source and starts between characters; it can be cut out exactly if it does not start
    with a character of several bytes. And of the errors that a script can lead to, exactly those about
    a character of several bytes that starts no token cannot be cut out. -/
theorem slices_iff_of_errorOf (source : String) :
    (∀ c : Error.Cause,
      (⟨(Error.locate source c).region.offset⟩ : String.Pos.Raw).IsValid source ∧
        (Error.locate source c).region.offset + (Error.locate source c).region.length ≤
          source.utf8ByteSize ∧
        ((Error.locate source c).region.Slices source ↔
          ∀ d, (Error.locate source c).region.StartsWith source d → d.utf8Size = 1)) ∧
    ∀ error : Error, ErrorOf source error →
      error.source = source ∧
        (error.region.Slices source ↔
          ∀ p d, error.cause = .lexical (.unexpectedCharacter p d) → d.utf8Size = 1) := by
  refine ⟨fun c => Place.region_slices_iff c.place source, fun error h => ?_⟩
  rcases h.placed with ⟨file, e, hscan, rfl⟩ | ⟨file, ts, c, hscan, hmem, hother, rfl⟩
  · refine ⟨rfl, (slices_iff_of_refused hscan).trans ⟨fun hone p d hd => ?_, fun hone p d hd => ?_⟩⟩
    · exact hone p d (Error.Cause.lexical.inj hd)
    · exact hone p d (congrArg Error.Cause.lexical hd)
  · exact ⟨rfl, fun _ p d hd => absurd hd (hother _), fun _ => slices_of_mem hscan hmem⟩

/-- An error behind a string with a letter of two bytes can be cut out. -/
theorem slices_iff_of_errorOf_strayInteger :
    (Error.locate strayInteger (.parse (.unexpectedToken ⟨none, 2, 4⟩ "1"))).region.Slices
      strayInteger :=
  (((slices_iff_of_errorOf strayInteger).2 _ (.compile Registry.ignoresPlaces_standard
    (compile_strayInteger (.fresh Environment.empty)))).2).2 nofun

/-- A script of one character, a letter of two bytes that starts no token. -/
def strayLetter : String := "\u00e9"

theorem compile_strayLetter (session : Session) :
    (⟨.standard, {}, session⟩ : Engine).compile strayLetter =
      .error (Error.locate strayLetter (.lexical (.unexpectedCharacter ⟨none, 1, 1⟩ '\u00e9'))) := by
  have hscan : Token.scan strayLetter none =
      .error (.unexpectedCharacter ⟨none, 1, 1⟩ '\u00e9') := by
    rw [Token.scan, Token.scanFrom_eq]
    rfl
  exact compile_of_scan_error hscan

/-- Its error cannot be cut out: the region is one byte of the two. -/
theorem not_slices_strayLetter :
    ∃ error, (⟨.standard, {}, .fresh Environment.empty⟩ : Engine).compile strayLetter = .error error ∧
      error.region = ⟨0, 1⟩ ∧ ¬ error.region.Slices strayLetter := by
  refine ⟨_, compile_strayLetter _, rfl, fun h => ?_⟩
  have htext : strayLetter.toList = [] ++ '\u00e9' :: [] := rfl
  exact absurd ((Place.isValid_succ_iff htext).1 h.stop) (by decide)

end Engine

end CallScript
