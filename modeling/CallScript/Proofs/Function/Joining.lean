import CallScript.Proofs.Function.Pieces
import CallScript.Proofs.Pattern.Occurrences
import CallScript.Proofs.Text.Joining

/-!
# Splitting and replacing plain text

Splitting at a text and replacing the text go through the same occurrences. The empty text is a case
of its own: there is a cut behind each character but the last one, and nothing is replaced.

* `split_joined`: what is split can be joined again, how many pieces a limit leaves, and what
  replacing has to do with it.
-/

namespace CallScript.Function

open Text (Leftmost splitOn singles)

/-! ## 1. Results of the calls -/

theorem split_execute {limit : Option Value} {cuts : Option Nat} (hc : cutsFor limit = .ok cuts)
    (d v : Value) (place : Place) (w : World) :
    split.execute (d :: v :: limit.toList) place w =
      (.ok (textsValue (pieces d.render.toList cuts v.render.toList)), w) := by
  show (raiseAt place (do
      let cuts ← cutsFor (d :: v :: limit.toList)[2]?
      pure (textsValue (pieces d.render.toList cuts v.render.toList))), w) = _
  rw [getElem?_limit, hc]
  rfl

theorem replace_execute (v d x : Value) (place : Place) (w : World) :
    replace.execute [v, d, x] place w =
      (.ok (textValue (substitute v.render.toList d.render.toList x.render.toList)), w) := rfl

theorem pieces_nil (cuts : Option Nat) (s : List Char) : pieces [] cuts s = singles cuts s := rfl

theorem pieces_of_ne_nil {d : List Char} (hd : d ≠ []) (cuts : Option Nat) (s : List Char) :
    pieces d cuts s = splitOn d cuts s :=
  if_neg (by rwa [List.isEmpty_iff])

theorem substitute_nil (s w : List Char) : substitute s [] w = s := rfl

/-- Replacing a text is joining the pieces with another one. -/
theorem substitute_of_ne_nil {d : List Char} (hd : d ≠ []) (s w : List Char) :
    substitute s d w = w.intercalate (splitOn d none s) := by
  rw [substitute, if_neg (by rwa [List.isEmpty_iff]), Text.replaceAll_eq_intercalate hd]

/-- An array of texts has as many entries as there are texts, in their order. -/
theorem textsValue_eq {parts : List (List Char)} (h : parts.length < 2 ^ 63) :
    ∃ t, textsValue parts = .array t ∧ t.size = parts.length ∧ t.values = parts.map textValue := by
  rw [← @List.length_map _ _ _ textValue] at h
  refine ⟨_, rfl, ?_, Table.values_ofList h⟩
  rw [Table.size_ofList h, List.length_map]

/-! ## 2. Numbers of pieces -/

theorem atMost_zero (cuts : Option Nat) : atMost cuts 0 = 0 := Nat.le_zero.1 (atMost_le cuts 0)

theorem atMost_some_zero (n : Nat) : atMost (some 0) n = 0 := Nat.zero_min n

/-- If a cut is allowed, one fewer is allowed behind it. -/
theorem atMost_succ {cuts : Option Nat} (hcuts : cuts ≠ some 0) (n : Nat) :
    atMost cuts (n + 1) = atMost (Text.oneLess cuts) n + 1 := by
  match cuts with
  | none => rfl
  | some 0 => exact absurd rfl hcuts
  | some (b + 1) => exact Nat.succ_min_succ b n

/-- A bound on cuts leaves one piece more than the cuts that it allows. -/
theorem length_splitOn {d : List Char} (hd : d ≠ []) (cuts : Option Nat) (s : List Char) :
    (splitOn d cuts s).length = atMost cuts ((splitOn d none s).length - 1) + 1 := by
  induction s using Text.occurrence_induction hd generalizing cuts with
  | none s h =>
      rw [Text.splitOn_of_not_occursAt h, Text.splitOn_of_not_occursAt h, List.length_singleton,
        Nat.sub_self, atMost_zero]
  | first pre post h ih =>
      by_cases hcuts : cuts = some 0
      · rw [hcuts, Text.splitOn_some_zero, atMost_some_zero]
        rfl
      · have hall : (splitOn d none post).length = (splitOn d none post).length - 1 + 1 := ih none
        rw [Text.splitOn_first hd hcuts h, @Text.splitOn_first d none hd nofun _ _ h,
          List.length_cons, List.length_cons, Nat.add_sub_cancel]
        show _ = atMost cuts (splitOn d none post).length + 1
        rw [hall, atMost_succ hcuts, ih]

/-- Behind the last character there is no cut. -/
theorem length_singles (cuts : Option Nat) (s : List Char) :
    (singles cuts s).length = atMost cuts (s.length - 1) + 1 := by
  fun_induction singles cuts s with
  | case1 | case2 => exact congrArg (· + 1) (atMost_zero _).symm
  | case3 => rw [atMost_some_zero]; rfl
  | case4 cuts c r hr hcuts ih =>
      have hlast : r.length = r.length - 1 + 1 := by
        have := List.length_pos_iff.2 hr
        omega
      rw [List.length_cons, List.length_cons, Nat.add_sub_cancel, ih, hlast, atMost_succ hcuts]
      rfl

/-! ## 3. Splitting and replacing -/

/-- **What is split at a text can be joined with it, and replacing is splitting and joining.** The
    pieces are as many as the limit allows, and there is one more than there are leftmost
    occurrences, if it allows all cuts; then the text is in no piece, and the pieces joined with
    another text are what replacing gives. The empty text cuts behind each character but the last
    one, and replacing it does nothing. -/
theorem split_joined {limit : Option Value} {cuts : Option Nat} (hc : Allows limit cuts)
    (d v x : Value) (place : Place) (w : World) :
    ∃ parts, split.execute (d :: v :: limit.toList) place w = (.ok (textsValue parts), w) ∧
      (parts.length < 2 ^ 63 → ∃ t, textsValue parts = .array t ∧ t.size = parts.length ∧
        t.values = parts.map textValue) ∧
      (d.render ≠ "" →
        d.render.toList.intercalate parts = v.render.toList ∧
        (∃ found, Leftmost d.render v.render found ∧
          parts.length = atMost cuts found.length + 1) ∧
        (cuts = none → (∀ part ∈ parts, ¬ d.render.toList <:+: part) ∧
          replace.execute [v, d, x] place w =
            (.ok (textValue (x.render.toList.intercalate parts)), w))) ∧
      (d.render = "" →
        parts.flatten = v.render.toList ∧
        (∀ part ∈ parts.dropLast, part.length = 1) ∧
        (v.render ≠ "" → parts.length = atMost cuts (v.render.length - 1) + 1) ∧
        (v.render = "" → parts = [[]]) ∧
        replace.execute [v, d, x] place w = (.ok (.string v.render), w)) := by
  refine ⟨_, split_execute hc.cutsFor_eq d v place w, textsValue_eq, fun hd => ?_, fun hd => ?_⟩
  · have hne : d.render.toList ≠ [] := by simpa using hd
    obtain ⟨found, hfound, hpieces⟩ := Text.exists_leftmost hne v.render.toList
    rw [String.ofList_toList, String.ofList_toList] at hfound
    rw [pieces_of_ne_nil hne, replace_execute, substitute_of_ne_nil hne]
    refine ⟨Text.intercalate_splitOn hne cuts _, ⟨found, hfound, ?_⟩, ?_⟩
    · rw [length_splitOn hne, hpieces, Nat.add_sub_cancel]
    · rintro rfl
      exact ⟨fun part hpart => Text.not_infix_of_mem_splitOn hne hpart, rfl⟩
  · have hnil : d.render.toList = [] := by rw [hd]; rfl
    rw [hnil, pieces_nil, replace_execute, hnil, substitute_nil]
    refine ⟨Text.flatten_singles cuts _,
      fun part hpart => Text.length_of_mem_dropLast_singles hpart, fun _ => ?_, fun hv => ?_, ?_⟩
    · rw [length_singles, String.length_toList]
    · rw [hv]
      rfl
    · rw [textValue, String.ofList_toList]

/-- The text `a.a`, which overlaps itself in `éa.a.a`, is found there once. A limit of zero allows one
    cut, and so it leaves two pieces. -/
theorem split_joined_overlapping :
    ∃ parts all, Allows (some (.integer 0)) (some 1) ∧
      split.execute [.string "a.a", .string "éa.a.a", .integer 0] default (.fresh .empty) =
        (.ok (textsValue parts), .fresh .empty) ∧
      "a.a".toList.intercalate parts = "éa.a.a".toList ∧ parts.length = 2 ∧
      split.execute [.string "a.a", .string "éa.a.a"] default (.fresh .empty) =
        (.ok (textsValue all), .fresh .empty) ∧
      (∀ part ∈ all, ¬ "a.a".toList <:+: part) ∧
      replace.execute [.string "éa.a.a", .string "a.a", .string "-"] default (.fresh .empty) =
        (.ok (textValue (['-'].intercalate all)), .fresh .empty) := by
  have hzero : (Value.integer 0).toInteger = .ok 0 := rfl
  have hc : Allows (some (.integer 0)) (some 1) := .bound hzero (by decide)
  obtain ⟨parts, hparts, -, htext, -⟩ :=
    split_joined hc (.string "a.a") (.string "éa.a.a") (.string "-") default (.fresh .empty)
  obtain ⟨all, hall, -, hreplace, -⟩ :=
    split_joined .absent (.string "a.a") (.string "éa.a.a") (.string "-") default (.fresh .empty)
  obtain ⟨hjoin, ⟨found, hfound, hlength⟩, -⟩ := htext (by decide)
  obtain ⟨hnone, hreplaced⟩ := (hreplace (by decide)).2.2 rfl
  obtain rfl := hfound.unique (Pattern.occurrences_overlapping.leftmost (by decide))
  exact ⟨parts, all, hc, hparts, hjoin, hlength, hall, hnone, hreplaced⟩

end CallScript.Function
