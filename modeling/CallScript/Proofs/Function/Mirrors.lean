import CallScript.Proofs.Function.Listing
import CallScript.Proofs.Text.Decimal
import Mathlib.Data.List.Forall2

/-!
# Groups of a match as an array

A match as an array has the groups under their numbers and then those that have a name under their
names. A name never is the text of an integer, and no two groups share one, so no entry is written over
another one.

* `toList_matchTable`, `get?_matchTable`: the entries of the array and what is read under their keys;
* `mirrors_matchTable`: what the array says about the match (`Mirrors`);
* `regMatch_mirrors`: this holds of each array that the two functions give, for every pattern and every
  text.
-/

namespace CallScript.Pattern

/-! ## 1. Names of groups -/

namespace GroupName

/-- What a name starts with is neither a sign nor a digit. -/
theorem not_numeral_of_start {c : Char} (h : isGroupNameStart c = true) :
    c ≠ '-' ∧ c ≠ '+' ∧ c.isDigit = false := by
  have hascii : c.toNat < 0x80 → c = '_' ∨ c.isAlpha = true := by
    intro hlt
    rw [isGroupNameStart, Bool.or_eq_true, decide_eq_true_eq, Text.isLetter_of_isAlpha c hlt] at h
    exact h
  refine ⟨?_, ?_, ?_⟩
  · rintro rfl
    exact absurd (hascii (by decide)) (by decide)
  · rintro rfl
    exact absurd (hascii (by decide)) (by decide)
  · refine Bool.eq_false_iff.2 fun hdigit => ?_
    have hrange : 48 ≤ c.toNat ∧ c.toNat ≤ 57 := Char.isDigit_iff_toNat.1 hdigit
    rcases hascii (by omega) with rfl | halpha
    · exact absurd hdigit (by decide)
    · rw [Decimal.isAlpha_of_isDigit hdigit] at halpha
      cases halpha

/-- **The name of a group is a name**, not an index. -/
theorem ofText_text (n : GroupName) : Key.ofText n.text = .name n.text := by
  obtain ⟨chars, hne, htext⟩ := n
  cases chars with
  | nil => exact absurd rfl hne
  | cons c r =>
      have hstart : isGroupNameStart c = true := (Bool.and_eq_true_iff.1 htext).1
      obtain ⟨hminus, hplus, hdigit⟩ := not_numeral_of_start hstart
      unfold Key.ofText text
      rw [Decimal.parse?_eq_none hminus hplus hdigit]

theorem text_injective : Function.Injective text := by
  intro n n' h
  have hchars : n.chars = n'.chars := String.ofList_injective h
  cases n
  cases n'
  cases hchars
  rfl

end GroupName

/-- The names stand in the order of their groups. -/
theorem map_namedGroups (p : Pattern) : p.namedGroups.map Prod.snd = p.groups.taken := by
  have hfrom : ∀ (names : List (Option GroupName)) (k : Nat),
      ((names.zipIdx k).filterMap fun o => o.1.map fun n => (o.2, n)).map Prod.snd =
        names.filterMap id := by
    intro names
    induction names with
    | nil => exact fun _ => rfl
    | cons name names ih =>
        intro k
        cases name with
        | none => exact ih (k + 1)
        | some n => exact congrArg (n :: ·) (ih (k + 1))
  exact hfrom p.groups.names 1

/-- The names stand beside the numbers of their groups. -/
theorem mem_namedGroups {p : Pattern} {i : Nat} {n : GroupName}
    (h : p.groups.names[i]? = some (some n)) : (i + 1, n) ∈ p.namedGroups := by
  refine List.mem_filterMap.2 ⟨(some n, i + 1), ?_, rfl⟩
  rw [List.mem_zipIdx_iff_le_and_getElem?_sub]
  exact ⟨Nat.le_add_left 1 i, h⟩

/-! ## 2. Groups that take part -/

/-- The group matched the text from one place to the other. The whole match is group zero; of the
    others it is noted where they begin and where they end. -/
def Match.Spans (m : Match) (number start stop : Nat) : Prop :=
  if number = 0 then start = m.start ∧ stop = m.stop
  else m.slots[(slotsOf number).1]? = some (some start) ∧
    m.slots[(slotsOf number).2]? = some (some stop)

theorem Match.groupText?_of_spans {m : Match} {number start stop : Nat}
    (h : m.Spans number start stop) (subject : Subject) :
    m.groupText? subject number = some (slice subject start stop) := by
  unfold Spans at h
  unfold groupText?
  by_cases hzero : number = 0
  · rw [if_pos hzero] at h ⊢
    rw [h.1, h.2]
    rfl
  · rw [if_neg hzero] at h ⊢
    rw [h.1, h.2]

theorem Match.groupText?_eq_none {m : Match} {number : Nat}
    (h : ∀ start stop, ¬ m.Spans number start stop) (subject : Subject) :
    m.groupText? subject number = none := by
  unfold Spans at h
  unfold groupText?
  by_cases hzero : number = 0
  · exact absurd ⟨rfl, rfl⟩ (if_pos hzero ▸ h m.start m.stop)
  · rw [if_neg hzero]
    split
    · next start stop hstart hstop =>
      exact absurd ⟨hstart, hstop⟩ (if_neg hzero ▸ h start stop)
    · rfl

end CallScript.Pattern

namespace CallScript.Function

open Pattern (GroupName Match Subject)

variable {p : Pattern} {subject : Subject} {m : Match}

/-! ## 3. Entries -/

/-- The entries of a match as an array, in the order in which they are written. -/
def groupEntries (p : Pattern) (subject : Subject) (m : Match) : List (Key × Value) :=
  (List.range (p.groupCount + 1)).map (fun i => (.index (Int64.ofNat i), groupValue subject m i)) ++
    p.namedGroups.map fun g => (.name g.2.text, groupValue subject m g.1)

theorem matchTable_eq (p : Pattern) (subject : Subject) (m : Match) :
    matchTable p subject m = Table.associative.writeAll (groupEntries p subject m) := by
  unfold matchTable groupEntries Table.writeAll
  simp only [List.foldl_append, List.foldl_map, GroupName.ofText_text]

theorem keys_groupEntries (p : Pattern) (subject : Subject) (m : Match) :
    (groupEntries p subject m).map Prod.fst =
      (List.range (p.groupCount + 1)).map (fun i => .index (Int64.ofNat i)) ++
        p.groups.taken.map fun n => .name n.text := by
  unfold groupEntries
  rw [List.map_append, List.map_map, List.map_map, ← Pattern.map_namedGroups, List.map_map]
  rfl

/-- **No key is written twice.** -/
theorem nodup_keys_groupEntries (hcount : p.groupCount < 2 ^ 63) (subject : Subject) (m : Match) :
    ((groupEntries p subject m).map Prod.fst).Nodup := by
  rw [keys_groupEntries, List.nodup_append]
  refine ⟨?_, ?_, ?_⟩
  · refine List.Nodup.map_on ?_ List.nodup_range
    intro i hi j hj heq
    rw [List.mem_range] at hi hj
    exact Table.ofNat_inj (by omega) (by omega) (Key.index.inj heq)
  · exact p.groups.distinct.map fun n n' heq => GroupName.text_injective (Key.name.inj heq)
  · -- an index is never a name
    rintro k hk _ hk' rfl
    obtain ⟨i, -, rfl⟩ := List.mem_map.1 hk
    obtain ⟨n, -, heq⟩ := List.mem_map.1 hk'
    cases heq

/-- **The entries are those that are written.** -/
theorem toList_matchTable (hcount : p.groupCount < 2 ^ 63) (subject : Subject) (m : Match) :
    (matchTable p subject m).toList = groupEntries p subject m := by
  rw [matchTable_eq, Table.toList_writeAll (fun _ _ => Std.HashMap.getElem?_empty)
    (nodup_keys_groupEntries hcount subject m)]
  rfl

theorem get?_matchTable (hcount : p.groupCount < 2 ^ 63) {k : Key} {value : Value}
    (hmem : (k, value) ∈ groupEntries p subject m) :
    (matchTable p subject m).get? k = some value := by
  rw [matchTable_eq]
  exact Table.indexed_associative.get?_writeAll (nodup_keys_groupEntries hcount subject m) hmem

theorem get?_matchTable_index (hcount : p.groupCount < 2 ^ 63) {i : Nat} (hi : i ≤ p.groupCount) :
    (matchTable p subject m).get? (.index (Int64.ofNat i)) = some (groupValue subject m i) :=
  get?_matchTable hcount (List.mem_append_left _
    (List.mem_map_of_mem (List.mem_range.2 (Nat.lt_succ_of_le hi))))

theorem get?_matchTable_name (hcount : p.groupCount < 2 ^ 63) {i : Nat} {n : GroupName}
    (hn : p.groups.names[i]? = some (some n)) :
    (matchTable p subject m).get? (.name n.text) = some (groupValue subject m (i + 1)) :=
  get?_matchTable hcount (List.mem_append_right _ (List.mem_map_of_mem
    (Pattern.mem_namedGroups hn)))

/-! ## 4. What an array says about a match -/

/-- The array tells about the match: its keys are the numbers of the groups and then the names, in the
    order of the groups; under a name is what is under the number of its group; and under a number is
    the text that the group matched, or null if it took no part. -/
structure Mirrors (p : Pattern) (subject : Subject) (m : Match) (t : Table Value) : Prop where
  keys : t.toList.map Prod.fst =
    (List.range (p.groupCount + 1)).map (fun i => .index (Int64.ofNat i)) ++
      p.groups.taken.map fun n => .name n.text
  apart : (t.toList.map Prod.fst).Nodup
  named : ∀ i n, p.groups.names[i]? = some (some n) →
    t.get? (Key.ofText n.text) = t.get? (.index (Int64.ofNat (i + 1)))
  matched : ∀ i ≤ p.groupCount, ∀ start stop, m.Spans i start stop →
    t.get? (.index (Int64.ofNat i)) = some (textValue (Pattern.slice subject start stop))
  absent : ∀ i ≤ p.groupCount, (t.get? (.index (Int64.ofNat i)) = some .null ↔
    ∀ start stop, ¬ m.Spans i start stop)

/-- **A match as an array tells about the match.** -/
theorem mirrors_matchTable (hcount : p.groupCount < 2 ^ 63) (subject : Subject) (m : Match) :
    Mirrors p subject m (matchTable p subject m) where
  keys := by rw [toList_matchTable hcount, keys_groupEntries]
  apart := by
    rw [toList_matchTable hcount]
    exact nodup_keys_groupEntries hcount subject m
  named i n hn := by
    have hi : i < p.groupCount := (List.getElem?_eq_some_iff.1 hn).1
    rw [GroupName.ofText_text, get?_matchTable_name hcount hn, get?_matchTable_index hcount hi]
  matched i hi start stop hspans := by
    rw [get?_matchTable_index hcount hi, groupValue, Match.groupText?_of_spans hspans]
  absent i hi := by
    rw [get?_matchTable_index hcount hi, groupValue, Option.some.injEq]
    constructor
    · intro hnull start stop hspans
      rw [Match.groupText?_of_spans hspans] at hnull
      cases hnull
    · intro hnone
      rw [Match.groupText?_eq_none hnone]

/-- **Each array that is given for a match tells about that match**: the one of the first match, and
    those in the list of all matches, in the order of the matches. -/
theorem regMatch_mirrors {pattern : Value} (hp : patternOf pattern = .ok p)
    (hcount : p.groupCount < 2 ^ 63) (v : Value) (place : Place) (w : World) :
    (∀ m, p.program.search v.render.toList.toArray 0 = some m →
      ∃ t, regMatch.execute [pattern, v] place w = (.ok (.array t), w) ∧
        Mirrors p v.render.toList.toArray m t) ∧
    ∃ listed, regMatchAll.execute [pattern, v] place w = (.ok (Value.ofList listed), w) ∧
      List.Forall₂ (fun m value => ∃ t, value = .array t ∧ Mirrors p v.render.toList.toArray m t)
        (p.program.findTouching v.render.toList.toArray) listed ∧
      (∀ value ∈ (Table.ofList listed).values, value ∈ listed) ∧
      (listed.length < 2 ^ 63 → (Table.ofList listed).values = listed) := by
  constructor
  · intro m hm
    refine ⟨_, ?_, mirrors_matchTable hcount _ m⟩
    rw [execute_regMatch hp, firstMatch, hm]
  · refine ⟨_, execute_regMatchAll hp v place w, ?_, fun _ => Table.mem_of_mem_values_ofList,
      Table.values_ofList⟩
    refine List.forall₂_map_right_iff.2 (List.forall₂_same.2 fun m _ => ?_)
    exact ⟨_, rfl, mirrors_matchTable hcount _ m⟩

/-! ## 5. A group that is left out

The pattern `(?<x>b)?c` matches the text `c`, and its group takes no part. -/

/-- The groups of `(?<x>b)?c`. -/
def optionalGroups : Pattern.Groups := ⟨[some ⟨['x'], by decide, by decide⟩], by decide⟩

/-- The program of `(?<x>b)?c`. -/
def optionalProgram : Pattern.Program :=
  ⟨#[.accept, .char 'c' 0, .save 1 1, .char 'b' 2, .save 0 3, .fork [4, 1]], 5, 2⟩

theorem parse_optional : Pattern.Expr.parse {} (Pattern.expandQuotes "(?<x>b)?c".toList) =
    .ok (.sequence [.repetition (.group 1 (.char 'b')) 0 (some 1) true, .char 'c'],
      optionalGroups) := by
  show Pattern.Reading.readAll ⟨Pattern.plainMode, [], [], [], Pattern.Groups.empty⟩
    ['(', '?', '<', 'x', '>', 'b', ')', '?', 'c'] = _
  rw [Pattern.Reading.readAll_cons rfl]
  show Pattern.Reading.readAll
    ⟨Pattern.plainMode, [⟨Pattern.plainMode, some 1, [], []⟩], [], [], optionalGroups⟩
    ['b', ')', '?', 'c'] = _
  rw [Pattern.Reading.readAll_char rfl (by decide), Pattern.Reading.readAll_cons rfl]
  show Pattern.Reading.readAll
    ⟨Pattern.plainMode, [], [.group 1 (.char 'b')], [], optionalGroups⟩ ['?', 'c'] = _
  rw [Pattern.Reading.readAll_cons rfl]
  show Pattern.Reading.readAll
    ⟨Pattern.plainMode, [], [.repetition (.group 1 (.char 'b')) 0 (some 1) true], [],
      optionalGroups⟩ ['c'] = _
  rw [Pattern.Reading.readAll_char rfl (by decide)]
  exact Pattern.Reading.readAll_nil rfl

theorem patternOf_optional :
    patternOf (.string "(?<x>b)?c") = .ok ⟨"(?<x>b)?c", {}, optionalProgram, optionalGroups⟩ := by
  refine patternOf_of_compile ?_
  unfold Pattern.compile
  rw [parse_optional]
  rfl

theorem optionalProgram_search :
    optionalProgram.search #['c'] 0 = some ⟨0, 1, #[none, none]⟩ := by
  simp [optionalProgram, Pattern.Program.search, Pattern.Program.fresh, Pattern.Program.blank,
    Pattern.scan, Pattern.seeded, Pattern.advance, Pattern.follow, Pattern.spot, Pattern.before?,
    Pattern.Thread.goto, Pattern.Thread.gotoAll, Pattern.Step.take?]
  rfl

theorem optionalProgram_findTouching :
    optionalProgram.findTouching #['c'] = [⟨0, 1, #[none, none]⟩] := by
  have hend : optionalProgram.search #['c'] 1 = none := by
    simp [optionalProgram, Pattern.Program.search, Pattern.Program.fresh, Pattern.Program.blank,
      Pattern.scan, Pattern.seeded, Pattern.advance, Pattern.follow, Pattern.spot, Pattern.before?,
      Pattern.Thread.goto, Pattern.Thread.gotoAll, Pattern.Step.take?]
  rw [Pattern.Program.findTouching, Pattern.Program.findTouchingFrom_some optionalProgram_search]
  exact congrArg _ (Pattern.Program.findTouchingFrom_none hend)

theorem regMatch_mirrors_optional :
    ∃ p t listed, patternOf (.string "(?<x>b)?c") = .ok p ∧ p.groupCount < 2 ^ 63 ∧
      regMatch.execute [.string "(?<x>b)?c", .string "c"] default (.fresh .empty) =
        (.ok (.array t), .fresh .empty) ∧
      regMatchAll.execute [.string "(?<x>b)?c", .string "c"] default (.fresh .empty) =
        (.ok (Value.ofList [.array listed]), .fresh .empty) ∧
      ∀ t' ∈ [t, listed], t'.toList.map Prod.fst = [.index 0, .index 1, .name "x"] ∧
        t'.get? (.index 0) = some (.string "c") ∧ t'.get? (Key.ofText "x") = some .null := by
  have hcount : Pattern.groupCount ⟨"(?<x>b)?c", {}, optionalProgram, optionalGroups⟩ < 2 ^ 63 := by
    decide
  have htells : ∀ t', Mirrors ⟨"(?<x>b)?c", {}, optionalProgram, optionalGroups⟩ #['c']
      ⟨0, 1, #[none, none]⟩ t' → t'.toList.map Prod.fst = [.index 0, .index 1, .name "x"] ∧
        t'.get? (.index 0) = some (.string "c") ∧ t'.get? (Key.ofText "x") = some .null := by
    intro t' h
    have habsent : t'.get? (.index (Int64.ofNat 1)) = some .null := by
      refine (h.absent 1 (Nat.le_refl 1)).2 fun start stop hspans => ?_
      exact nomatch hspans.1
    refine ⟨h.keys, h.matched 0 (Nat.zero_le _) 0 1 ⟨rfl, rfl⟩, ?_⟩
    exact (h.named 0 ⟨['x'], by decide, by decide⟩ rfl).trans habsent
  obtain ⟨hfirst, listed, hlisted, hpairs, -⟩ :=
    regMatch_mirrors patternOf_optional hcount (.string "c") default (.fresh .empty)
  obtain ⟨t, hexecute, hmirrors⟩ := hfirst ⟨0, 1, #[none, none]⟩ optionalProgram_search
  have hpairs : List.Forall₂ _ (optionalProgram.findTouching #['c']) listed := hpairs
  rw [optionalProgram_findTouching] at hpairs
  obtain ⟨value, rest, ⟨t', rfl, hmirrors'⟩, hrest, rfl⟩ := List.forall₂_cons_left_iff.1 hpairs
  obtain rfl := List.forall₂_nil_left_iff.1 hrest
  exact ⟨_, t, t', patternOf_optional, hcount, hexecute, hlisted, List.forall_mem_cons.2
    ⟨htells t hmirrors, List.forall_mem_singleton.2 (htells t' hmirrors')⟩⟩

end CallScript.Function
