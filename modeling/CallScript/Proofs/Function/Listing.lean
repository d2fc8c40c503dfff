import CallScript.Proofs.Function.Matches
import CallScript.Proofs.Pattern.Progress
import CallScript.Proofs.Value.Entries

/-!
# Listing matches

A call that lists all matches of a pattern comes to an end for every pattern and every text, also
where matches are empty, and what it lists first is what a call for the first match gives.

* `regMatchAll_progress`: how the call goes through the text, and how its result begins.
-/

namespace CallScript.Function

open Pattern (Match Subject Turns)

variable {pattern : Value} {p : Pattern}

/-! ## 1. Results of the calls -/

/-- A match as an array has the whole match in it, at least. -/
theorem size_matchTable_pos (p : Pattern) (subject : Subject) (m : Match) :
    0 < (matchTable p subject m).size := by
  have hone : ∀ v : Value, (Table.associative.set (.index (Int64.ofNat 0)) v).size = 1 := by
    intro v
    rw [Table.set_of_none Std.HashMap.getElem?_empty]
    rfl
  have hnumbered : 1 ≤ ((List.range (p.groupCount + 1)).foldl
      (fun t i => t.set (.index (Int64.ofNat i)) (groupValue subject m i))
      Table.associative).size := by
    rw [List.range_succ_eq_map, List.foldl_cons]
    exact hone (groupValue subject m 0) ▸ Table.size_le_foldl_set _ _ _ _
  exact Nat.lt_of_lt_of_le hnumbered (Table.size_le_foldl_set _ _ _ _)

theorem execute_regMatchAll (hp : patternOf pattern = .ok p) (v : Value) (place : Place)
    (w : World) :
    regMatchAll.execute [pattern, v] place w =
      (.ok (everyMatch p v.render.toList.toArray), w) :=
  @execute_withPattern [pattern, v] p everyMatch hp _ _ _ place w

theorem execute_regMatch (hp : patternOf pattern = .ok p) (v : Value) (place : Place) (w : World) :
    regMatch.execute [pattern, v] place w =
      (.ok (firstMatch p v.render.toList.toArray), w) :=
  @execute_withPattern [pattern, v] p firstMatch hp _ _ _ place w

/-- **The list of all matches begins with the first match**, if there is one. -/
theorem firstMatch_eq (p : Pattern) (subject : Subject) :
    ∃ first, firstMatch p subject = .array first ∧
      (p.program.findTouching subject = [] ↔ first.size = 0) ∧
      ∀ m rest, p.program.findTouching subject = m :: rest → first = matchTable p subject m := by
  unfold firstMatch Pattern.Program.findTouching
  cases h : p.program.search subject 0 with
  | none =>
      rw [Pattern.Program.findTouchingFrom_none h]
      exact ⟨_, rfl, ⟨fun _ => rfl, fun _ => rfl⟩, nofun⟩
  | some m =>
      rw [Pattern.Program.findTouchingFrom_some h]
      have hsize := size_matchTable_pos p subject m
      refine ⟨_, rfl, ⟨nofun, fun hzero => ?_⟩, fun m' rest heq => ?_⟩
      · omega
      · rw [(List.cons.inj heq).1]

/-! ## 2. Progress -/

/-- **A call that lists all matches gets through every text**: it searches only between characters,
    and at most as often as there are places for a match. The matches are one behind the other and
    none is listed twice. The list is empty exactly where a call for the first match gives an empty
    array, and otherwise it begins with what that call gives. -/
theorem regMatchAll_progress (hp : patternOf pattern = .ok p) (v : Value) (place : Place)
    (w : World) :
    ∃ starts found all first,
      Turns p.program v.render.toList 0 starts found ∧
      (∀ k ∈ starts, String.Pos.Raw.IsValid v.render ⟨k⟩) ∧
      found.length ≤ v.render.length + 1 ∧
      (found.Pairwise fun m m' => m.stop ≤ m'.start) ∧
      (found.map fun m => (m.start, m.stop)).Nodup ∧
      all = Table.ofList (found.map fun m => .array (matchTable p v.render.toList.toArray m)) ∧
      regMatchAll.execute [pattern, v] place w = (.ok (.array all), w) ∧
      regMatch.execute [pattern, v] place w = (.ok (.array first), w) ∧
      (all.size = 0 ↔ first.size = 0) ∧
      (all.size ≠ 0 → all.get? (.index 0) = some (.array first)) := by
  obtain ⟨starts, hturns⟩ := Pattern.turns_findTouching p.program v.render.toList
  obtain ⟨first, hfirst, hempty, hbegin⟩ := firstMatch_eq p v.render.toList.toArray
  have horder := Pattern.pairwise_findTouching p.program v.render.toList.toArray
  have hlength : (p.program.findTouching v.render.toList.toArray).length ≤
      v.render.toList.length + 1 := Pattern.Program.length_findTouchingFrom_le p.program _ 0
  have hvalid := hturns.isValid
  rw [String.ofList_toList] at hvalid
  have hmatch := execute_regMatch hp v place w
  rw [hfirst] at hmatch
  refine ⟨starts, _, _, first, hturns, hvalid, String.length_toList ▸ hlength,
    horder.imp And.left, ?_, rfl, execute_regMatchAll hp v place w, hmatch, ?_, ?_⟩
  · refine List.pairwise_map.2 (horder.imp fun hlt heq => ?_)
    exact absurd (Prod.mk.inj heq).1 (Nat.ne_of_lt hlt.2)
  · rw [Table.size_ofList_eq_zero_iff, List.map_eq_nil_iff, hempty]
  · intro hne
    rw [ne_eq, Table.size_ofList_eq_zero_iff, List.map_eq_nil_iff] at hne
    obtain ⟨m, rest, hcons⟩ := List.exists_cons_of_ne_nil hne
    rw [hcons, List.map_cons, Table.get?_zero_ofList, hbegin m rest hcons]

/-- The program of `a*` finds in `éa` the empty text in front of the first character, the letter
    behind its two bytes, and the empty text at the end. -/
theorem turns_star :
    Turns starProgram "éa".toList 0 [0, 2, 3] [⟨0, 0, #[]⟩, ⟨1, 2, #[]⟩, ⟨2, 2, #[]⟩] := by
  have hfirst : starProgram.search #['é', 'a'] 0 = some ⟨0, 0, #[]⟩ :=
    starProgram_search (by decide)
  have hletter : starProgram.search #['é', 'a'] 1 = some ⟨1, 2, #[]⟩ :=
    starProgram_search (by decide)
  have hlast : starProgram.search #['é', 'a'] 2 = some ⟨2, 2, #[]⟩ :=
    starProgram_search (by decide)
  refine .turn ⟨0, by decide, by decide, hfirst⟩ ?_
  refine .turn ⟨1, by decide, by decide, hletter⟩ ?_
  refine .turn ⟨2, by decide, by decide, hlast⟩ ?_
  exact .past (by decide)

theorem regMatchAll_progress_star :
    ∃ p all first, patternOf (.string "a*") = .ok p ∧
      (∀ k ∈ [0, 2, 3], String.Pos.Raw.IsValid "éa" ⟨k⟩) ∧
      regMatchAll.execute [.string "a*", .string "éa"] default (.fresh .empty) =
        (.ok (.array all), .fresh .empty) ∧
      regMatch.execute [.string "a*", .string "éa"] default (.fresh .empty) =
        (.ok (.array first), .fresh .empty) ∧
      all.size = 3 ∧ all.get? (.index 0) = some (.array first) := by
  obtain ⟨p, hp, hprogram⟩ := patternOf_star
  obtain ⟨starts, found, all, first, hturns, hvalid, -, -, -, hall, hexecute, hmatch, -, hbegin⟩ :=
    regMatchAll_progress hp (.string "éa") default (.fresh .empty)
  rw [hprogram] at hturns
  obtain ⟨rfl, rfl⟩ := hturns.unique turns_star
  have hsize : all.size = 3 := by
    rw [hall, Table.size_ofList (by simp)]
    rfl
  exact ⟨p, all, first, hp, hvalid, hexecute, hmatch, hsize, hbegin (by omega)⟩

end CallScript.Function
