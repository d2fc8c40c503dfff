import CallScript.Proofs.Pattern.PlainReplacement
import CallScript.Proofs.Text.Decimal

/-!
# How replacements are written

The text of a replacement is a row of items: plain characters, escaped characters, names in braces
and numbers. What the items are is said without reading the text: `WrittenFrom` puts a text together
from its items, and `Broken` is a text that has items up to a place and none from there on. The number
of a group is the longest run of digits that does not exceed the number of groups (`LongestNumber`),
and what is behind it is written from items again.

* `written_or_broken`: every text is one of the two;
* `parse_of_written`, `parse_of_broken`: what reading gives for each of them, so that
  `parse_eq_ok_iff` and `parse_eq_error_iff` say when it succeeds and how it fails;
* `merged_segmentsOf`, `expand_segmentsOf`: plain texts are put together as far as they go, and the
  segments stand for the texts of the items.
-/

namespace CallScript.Pattern

/-! ## 1. The longest number -/

/-- The digits are a number up to the limit, and no longer run of digits at the same place is. -/
structure LongestNumber (limit : Nat) (digits rest : List Char) : Prop where
  isRun : Decimal.Digits digits
  within : Nat.ofDigitChars 10 digits 0 ≤ limit
  longest : ∀ longer, longer <+: digits ++ rest → Decimal.Digits longer →
    Nat.ofDigitChars 10 longer 0 ≤ limit → longer.length ≤ digits.length

namespace Segment

/-- No digit is next, or the number with the next digit is beyond the limit. -/
def StopsAt (limit n : Nat) (rest : List Char) : Prop :=
  ∀ c r, rest = c :: r → c.isDigit = true → limit < 10 * n + (c.toNat - '0'.toNat)

theorem number_of_stopsAt {limit n : Nat} {rest : List Char} (h : StopsAt limit n rest) :
    number limit n rest = (n, rest) := by
  cases rest with
  | nil => rfl
  | cons c r =>
      rw [number, Nat.mul_comm]
      refine if_neg fun hc => ?_
      rw [Bool.and_eq_true, decide_eq_true_eq] at hc
      exact Nat.not_le.2 (h c r rfl hc.1) hc.2

theorem number_digit {limit n : Nat} {c : Char} (hc : c.isDigit = true)
    (hle : 10 * n + (c.toNat - '0'.toNat) ≤ limit) (s : List Char) :
    number limit n (c :: s) = number limit (10 * n + (c.toNat - '0'.toNat)) s := by
  rw [number, Nat.mul_comm]
  exact if_pos (Bool.and_eq_true_iff.2 ⟨hc, decide_eq_true hle⟩)

/-- More digits make a number no smaller. -/
theorem le_ofDigitChars (digits : List Char) (n : Nat) : n ≤ Nat.ofDigitChars 10 digits n := by
  induction digits generalizing n with
  | nil => exact Nat.le_refl n
  | cons c digits ih =>
      rw [Nat.ofDigitChars_cons]
      exact Nat.le_trans (by omega) (ih _)

/-- The digits up to the limit are taken, as far as that goes. -/
theorem number_append {limit n : Nat} {digits rest : List Char}
    (hdigits : ∀ c ∈ digits, c.isDigit = true) (hle : Nat.ofDigitChars 10 digits n ≤ limit)
    (hstop : StopsAt limit (Nat.ofDigitChars 10 digits n) rest) :
    number limit n (digits ++ rest) = (Nat.ofDigitChars 10 digits n, rest) := by
  induction digits generalizing n with
  | nil => exact number_of_stopsAt hstop
  | cons c digits ih =>
      obtain ⟨hc, hdigits⟩ := List.forall_mem_cons.1 hdigits
      rw [Nat.ofDigitChars_cons] at hle hstop ⊢
      -- the limit holds of the whole number, and so of the number up to each digit
      rw [List.cons_append, number_digit hc (Nat.le_trans (le_ofDigitChars _ _) hle)]
      exact ih hdigits hle hstop

/-- A number goes on with some digits, and stops behind them. -/
theorem exists_number {limit n : Nat} (h : n ≤ limit) (s : List Char) :
    ∃ digits rest, s = digits ++ rest ∧ (∀ c ∈ digits, c.isDigit = true) ∧
      Nat.ofDigitChars 10 digits n ≤ limit ∧ StopsAt limit (Nat.ofDigitChars 10 digits n) rest := by
  induction s generalizing n with
  | nil => exact ⟨[], [], rfl, fun _ hc => (List.not_mem_nil hc).elim, h, nofun⟩
  | cons c s ih =>
      -- a digit is taken where the number with it is within the limit
      by_cases hc : c.isDigit = true ∧ 10 * n + (c.toNat - '0'.toNat) ≤ limit
      · obtain ⟨digits, rest, rfl, hdigits, hle, hstop⟩ := ih hc.2
        rw [← Nat.ofDigitChars_cons] at hle hstop
        exact ⟨c :: digits, rest, rfl, List.forall_mem_cons.2 ⟨hc.1, hdigits⟩, hle, hstop⟩
      · refine ⟨[], c :: s, rfl, fun _ hc => (List.not_mem_nil hc).elim, h, ?_⟩
        rintro d r heq hd
        cases heq
        exact Nat.not_le.1 fun hle => hc ⟨hd, hle⟩

end Segment

/-- A longest number cannot go on. -/
theorem LongestNumber.stopsAt {limit : Nat} {digits rest : List Char}
    (h : LongestNumber limit digits rest) :
    Segment.StopsAt limit (Nat.ofDigitChars 10 digits 0) rest := by
  rintro c r rfl hc
  refine Nat.not_le.1 fun hle => ?_
  have hlonger : Decimal.Digits (digits ++ [c]) :=
    ⟨List.append_ne_nil_of_left_ne_nil h.isRun.1 _,
      List.forall_mem_append.2 ⟨h.isRun.2, List.forall_mem_singleton.2 hc⟩⟩
  have hprefix : digits ++ [c] <+: digits ++ c :: r := ⟨r, by rw [List.append_assoc]; rfl⟩
  have hlen := h.longest _ hprefix hlonger (by rwa [Nat.ofDigitChars_append])
  rw [List.length_append] at hlen
  exact Nat.not_succ_le_self _ hlen

/-- A number that cannot go on is the longest: a longer one would be at least the number with the next
    digit. -/
theorem LongestNumber.of_stopsAt {limit : Nat} {digits rest : List Char}
    (hdigits : Decimal.Digits digits) (hle : Nat.ofDigitChars 10 digits 0 ≤ limit)
    (hstop : Segment.StopsAt limit (Nat.ofDigitChars 10 digits 0) rest) :
    LongestNumber limit digits rest := by
  refine ⟨hdigits, hle, fun longer hprefix hlonger hlimit => Nat.not_lt.1 fun hlt => ?_⟩
  obtain ⟨more, rfl⟩ : digits <+: longer :=
    List.prefix_of_prefix_length_le (List.prefix_append _ _) hprefix (Nat.le_of_lt hlt)
  cases more with
  | nil => exact absurd hlt (by rw [List.append_nil]; exact Nat.lt_irrefl _)
  | cons c more =>
      obtain ⟨r, hr⟩ := (List.prefix_append_right_inj digits).1 hprefix
      have hc := hlonger.2 c (List.mem_append_right _ List.mem_cons_self)
      have hbeyond := hstop c (more ++ r) hr.symm hc
      rw [Nat.ofDigitChars_append, Nat.ofDigitChars_cons] at hlimit
      exact absurd (Nat.le_trans (Segment.le_ofDigitChars _ _) hlimit) (Nat.not_le.2 hbeyond)

/-- **There is a longest number where the first digit is one.** -/
theorem exists_longestNumber {limit : Nat} {c : Char} (hc : c.isDigit = true)
    (hle : c.toNat - '0'.toNat ≤ limit) (s : List Char) :
    ∃ digits rest, c :: s = digits ++ rest ∧ LongestNumber limit digits rest := by
  obtain ⟨digits, rest, rfl, hdigits, hlimit, hstop⟩ := Segment.exists_number hle s
  have hvalue : Nat.ofDigitChars 10 (c :: digits) 0 =
      Nat.ofDigitChars 10 digits (c.toNat - '0'.toNat) := by
    rw [Nat.ofDigitChars_cons, Nat.mul_zero, Nat.zero_add]
  rw [← hvalue] at hlimit hstop
  exact ⟨c :: digits, rest, rfl, .of_stopsAt
    ⟨List.cons_ne_nil _ _, List.forall_mem_cons.2 ⟨hc, hdigits⟩⟩ hlimit hstop⟩

/-! ## 2. Items -/

/-- What the text of a replacement is put together from. -/
inductive Item
  | plain (c : Char)
  | escaped (c : Char)
  | named (name : List Char) (number : Nat)
  | numbered (digits : List Char)

namespace Item

/-- The text that an item is written as. -/
def written : Item → List Char
  | plain c => [c]
  | escaped c => ['\\', c]
  | named name _ => '$' :: '\x7b' :: (name ++ ['\x7d'])
  | numbered digits => '$' :: digits

/-- The item may stand in front of a text: a plain character has no meaning, a name goes up to the
    first closing brace and is the name of the group, and a number is the longest one. -/
def Fits (count : Nat) (find? : String → Option Nat) (rest : List Char) : Item → Prop
  | plain c => c ≠ '\\' ∧ c ≠ '$'
  | escaped _ => True
  | named name number => '\x7d' ∉ name ∧ find? (String.ofList name) = some number
  | numbered digits => LongestNumber count digits rest

/-- The text that an item stands for, given the texts of the groups. -/
def text (groupText : Nat → List Char) : Item → List Char
  | plain c => [c]
  | escaped c => [c]
  | named _ number => groupText number
  | numbered digits => groupText (Nat.ofDigitChars 10 digits 0)

/-- The segments of an item and of what is behind it. -/
def addTo : Item → List Segment → List Segment
  | plain c, segments => Segment.consChar c segments
  | escaped c, segments => Segment.consChar c segments
  | named _ number, segments => .group number :: segments
  | numbered digits, segments => .group (Nat.ofDigitChars 10 digits 0) :: segments

theorem written_ne_nil (item : Item) : item.written ≠ [] := by
  cases item with
  | plain c => exact List.cons_ne_nil _ _
  | escaped c => exact List.cons_ne_nil _ _
  | named name number => exact List.cons_ne_nil _ _
  | numbered digits => exact List.cons_ne_nil _ _

end Item

/-- The text is written from the items, one behind the other. -/
inductive WrittenFrom (count : Nat) (find? : String → Option Nat) : List Char → List Item → Prop
  | nil : WrittenFrom count find? [] []
  | cons {item : Item} {rest : List Char} {items : List Item} (fits : item.Fits count find? rest)
      (behind : WrittenFrom count find? rest items) :
      WrittenFrom count find? (item.written ++ rest) (item :: items)

/-- The text is written from items up to a place from where it cannot go on, for the reason. -/
inductive Broken (count : Nat) (find? : String → Option Nat) : List Char → ReplacementError → Prop
  | slash : Broken count find? ['\\'] .escapeUnfinished
  | brace {name : List Char} (unclosed : '\x7d' ∉ name) :
      Broken count find? ('$' :: '\x7b' :: name) .nameUnclosed
  | name {name rest : List Char} (closed : '\x7d' ∉ name)
      (unknown : find? (String.ofList name) = none) :
      Broken count find? ('$' :: '\x7b' :: (name ++ '\x7d' :: rest))
        (.nameUnknown (String.ofList name))
  | number {c : Char} {rest : List Char} (digit : c.isDigit = true)
      (beyond : count < c.toNat - '0'.toNat) :
      Broken count find? ('$' :: c :: rest) (.numberUnknown (c.toNat - '0'.toNat))
  | dollar : Broken count find? ['$'] .referenceMalformed
  | other {c : Char} {rest : List Char} (noBrace : c ≠ '\x7b') (noDigit : c.isDigit = false) :
      Broken count find? ('$' :: c :: rest) .referenceMalformed
  | behind {item : Item} {rest : List Char} {why : ReplacementError}
      (fits : item.Fits count find? rest) (later : Broken count find? rest why) :
      Broken count find? (item.written ++ rest) why

variable {count : Nat} {find? : String → Option Nat}

/-- Behind a `$` is a name or a number of a group, or the text is broken right there. -/
theorem reference_or_broken (r : List Char) :
    (∃ item rest, '$' :: r = Item.written item ++ rest ∧ item.Fits count find? rest) ∨
      ∃ why, Broken count find? ('$' :: r) why := by
  cases r with
  | nil => exact Or.inr ⟨_, .dollar⟩
  | cons d r =>
      by_cases hbrace : d = '\x7b'
      · subst hbrace
        by_cases hclosed : '\x7d' ∈ r
        · obtain ⟨name, rest, rfl, hname⟩ := List.eq_append_cons_of_mem hclosed
          cases hfind : find? (String.ofList name) with
          | none => exact Or.inr ⟨_, .name hname hfind⟩
          | some number =>
              refine Or.inl ⟨.named name number, rest, ?_, hname, hfind⟩
              simp [Item.written]
        · exact Or.inr ⟨_, .brace hclosed⟩
      · cases hdigit : d.isDigit with
        | false => exact Or.inr ⟨_, .other hbrace hdigit⟩
        | true =>
            rcases Nat.lt_or_ge count (d.toNat - '0'.toNat) with hbeyond | hle
            · exact Or.inr ⟨_, .number hdigit hbeyond⟩
            · obtain ⟨digits, rest, hsplit, hlongest⟩ := exists_longestNumber hdigit hle r
              exact Or.inl ⟨.numbered digits, rest, congrArg _ hsplit, hlongest⟩

/-- A text that is not empty begins with an item, or it is broken right there. -/
theorem item_or_broken {s : List Char} (hs : s ≠ []) :
    (∃ item rest, s = Item.written item ++ rest ∧ item.Fits count find? rest) ∨
      ∃ why, Broken count find? s why := by
  cases s with
  | nil => exact absurd rfl hs
  | cons c r =>
      by_cases hslash : c = '\\'
      · subst hslash
        cases r with
        | nil => exact Or.inr ⟨_, .slash⟩
        | cons d r => exact Or.inl ⟨.escaped d, r, rfl, trivial⟩
      · by_cases hdollar : c = '$'
        · subst hdollar
          exact reference_or_broken r
        · exact Or.inl ⟨.plain c, r, rfl, hslash, hdollar⟩

/-- **Every text is written from items or broken.** -/
theorem written_or_broken (s : List Char) :
    (∃ items, WrittenFrom count find? s items) ∨ ∃ why, Broken count find? s why := by
  induction hn : s.length using Nat.strongRecOn generalizing s with
  | ind n ih =>
      by_cases hs : s = []
      · subst hs
        exact Or.inl ⟨[], .nil⟩
      rcases @item_or_broken count find? s hs with ⟨item, rest, rfl, hfits⟩ | hbroken
      · have hpos := List.length_pos_iff.2 item.written_ne_nil
        rw [List.length_append] at hn
        rcases ih rest.length (by omega) rest rfl with ⟨items, hitems⟩ | ⟨why, hwhy⟩
        · exact Or.inl ⟨item :: items, .cons hfits hitems⟩
        · exact Or.inr ⟨why, .behind hfits hwhy⟩
      · exact Or.inr hbroken

/-! ## 3. Reading items -/

namespace Segment

theorem parse_nil : parse count find? [] = .ok [] := by rw [parse]

theorem noBrace_of_not_mem {name : List Char} (h : '\x7d' ∉ name) :
    ∀ c ∈ name, decide (c ≠ '\x7d') = true :=
  fun _ hc => decide_eq_true fun heq => h (heq ▸ hc)

/-- A name is what is in front of the first closing brace. -/
theorem parse_braced {name rest : List Char} (hname : '\x7d' ∉ name) :
    parse count find? ('$' :: '\x7b' :: (name ++ '\x7d' :: rest)) =
      match find? (String.ofList name) with
      | none => .error (.nameUnknown (String.ofList name))
      | some n => (parse count find? rest).map (.group n :: ·) := by
  have hdrop : (name ++ '\x7d' :: rest).dropWhile (· ≠ '\x7d') = '\x7d' :: rest := by
    rw [List.dropWhile_append_of_pos (noBrace_of_not_mem hname)]
    rfl
  have htake : (name ++ '\x7d' :: rest).takeWhile (· ≠ '\x7d') = name := by
    rw [List.takeWhile_append_of_pos (noBrace_of_not_mem hname)]
    exact List.append_nil name
  rw [parse, htake]
  split
  · next hnil =>
    rw [hdrop] at hnil
    cases hnil
  · next hcons =>
    rw [hdrop] at hcons
    cases hcons
    rfl

theorem parse_unclosed {name : List Char} (hname : '\x7d' ∉ name) :
    parse count find? ('$' :: '\x7b' :: name) = .error .nameUnclosed := by
  have hdrop : name.dropWhile (· ≠ '\x7d') = [] := by
    rw [← List.append_nil name, List.dropWhile_append_of_pos (noBrace_of_not_mem hname)]
    rfl
  rw [parse]
  split
  · rfl
  · next hcons =>
    rw [hdrop] at hcons
    cases hcons

theorem parse_digit {c : Char} (hc : c.isDigit = true) (r : List Char) :
    parse count find? ('$' :: c :: r) =
      if count < c.toNat - '0'.toNat then .error (.numberUnknown (c.toNat - '0'.toNat))
      else (parse count find? (number count (c.toNat - '0'.toNat) r).2).map
        (.group (number count (c.toNat - '0'.toNat) r).1 :: ·) := by
  have hbrace : c ≠ '\x7b' := by
    rintro rfl
    exact absurd hc (by decide)
  rw [parse.eq_def]
  grind

theorem parse_other {c : Char} (hbrace : c ≠ '\x7b') (hdigit : c.isDigit = false) (r : List Char) :
    parse count find? ('$' :: c :: r) = .error .referenceMalformed := by
  rw [parse.eq_def]
  grind

/-- A longest number is read to the group of its value. -/
theorem parse_numbered {digits rest : List Char} (h : LongestNumber count digits rest) :
    parse count find? ('$' :: (digits ++ rest)) =
      (parse count find? rest).map (.group (Nat.ofDigitChars 10 digits 0) :: ·) := by
  obtain ⟨c, more, rfl⟩ := List.exists_cons_of_ne_nil h.isRun.1
  obtain ⟨hc, hmore⟩ := List.forall_mem_cons.1 h.isRun.2
  have hle := h.within
  have hstop := h.stopsAt
  rw [Nat.ofDigitChars_cons, Nat.mul_zero, Nat.zero_add] at hle hstop ⊢
  have hfirst := Nat.le_trans (le_ofDigitChars more _) hle
  rw [List.cons_append, parse_digit hc, if_neg (Nat.not_lt.2 hfirst),
    number_append hmore hle hstop]

end Segment

/-- **An item is read to its own segments**, in front of those of what is behind it. -/
theorem parse_item {item : Item} {rest : List Char} (h : item.Fits count find? rest) :
    Segment.parse count find? (item.written ++ rest) =
      (Segment.parse count find? rest).map item.addTo := by
  cases item with
  | plain c => exact Segment.parse_plain h.1 h.2 rest
  | escaped c => exact Segment.parse_escaped c rest
  | named name number =>
      show Segment.parse count find? ('$' :: '\x7b' :: (name ++ ['\x7d'] ++ rest)) = _
      rw [List.append_assoc, List.singleton_append, Segment.parse_braced h.1, h.2]
      rfl
  | numbered digits => exact Segment.parse_numbered h

/-- The segments of a row of items. -/
def segmentsOf (items : List Item) : List Segment := items.foldr Item.addTo []

/-- What is written from items is read to their segments. -/
theorem parse_of_written {s : List Char} {items : List Item} (h : WrittenFrom count find? s items) :
    Segment.parse count find? s = .ok (segmentsOf items) := by
  induction h with
  | nil => exact Segment.parse_nil
  | cons fits _ ih =>
      rw [parse_item fits, ih]
      rfl

/-- What is broken is refused for the reason. -/
theorem parse_of_broken {s : List Char} {why : ReplacementError} (h : Broken count find? s why) :
    Segment.parse count find? s = .error why := by
  induction h with
  | slash => rw [Segment.parse]
  | brace unclosed => exact Segment.parse_unclosed unclosed
  | name closed unknown => rw [Segment.parse_braced closed, unknown]
  | number digit beyond => rw [Segment.parse_digit digit, if_pos beyond]
  | dollar => rw [Segment.parse]
  | other noBrace noDigit => exact Segment.parse_other noBrace noDigit _
  | behind fits _ ih =>
      rw [parse_item fits, ih]
      rfl

/-- **Reading succeeds where the text is written from items**, and gives their segments. -/
theorem parse_eq_ok_iff {s : List Char} {segments : List Segment} :
    Segment.parse count find? s = .ok segments ↔
      ∃ items, WrittenFrom count find? s items ∧ segmentsOf items = segments := by
  constructor
  · intro h
    rcases @written_or_broken count find? s with ⟨items, hitems⟩ | ⟨why, hwhy⟩
    · exact ⟨items, hitems, Except.ok.inj ((parse_of_written hitems).symm.trans h)⟩
    · rw [parse_of_broken hwhy] at h
      cases h
  · rintro ⟨items, hitems, rfl⟩
    exact parse_of_written hitems

/-- **Reading fails where the text is broken**, for the same reason. -/
theorem parse_eq_error_iff {s : List Char} {why : ReplacementError} :
    Segment.parse count find? s = .error why ↔ Broken count find? s why := by
  refine ⟨fun h => ?_, parse_of_broken⟩
  rcases @written_or_broken count find? s with ⟨items, hitems⟩ | ⟨why', hwhy⟩
  · rw [parse_of_written hitems] at h
    cases h
  · cases (parse_of_broken hwhy).symm.trans h
    exact hwhy

/-! ## 4. Segments of items -/

/-- Plain texts are not empty and do not stand side by side. -/
structure Merged (segments : List Segment) : Prop where
  filled : .plain [] ∉ segments
  apart : ∀ s t, ¬ [.plain s, .plain t] <:+: segments

namespace Merged

theorem nil : Merged [] where
  filled := List.not_mem_nil
  apart _ _ h := absurd (List.infix_nil.1 h) (List.cons_ne_nil _ _)

theorem tail {segment : Segment} {segments : List Segment} (h : Merged (segment :: segments)) :
    Merged segments where
  filled hmem := h.filled (List.mem_cons_of_mem _ hmem)
  apart s t hpair := h.apart s t (hpair.trans (List.suffix_cons _ _).isInfix)

theorem cons_group {segments : List Segment} (h : Merged segments) (n : Nat) :
    Merged (.group n :: segments) where
  filled hmem := by
    rcases List.mem_cons.1 hmem with heq | hmem
    · cases heq
    · exact h.filled hmem
  apart s t hpair := by
    rcases List.infix_cons_iff.1 hpair with hprefix | hpair
    · cases (List.cons_prefix_cons.1 hprefix).1
    · exact h.apart s t hpair

/-- A plain text may be put in front of a reference, and where nothing is behind it. -/
theorem cons_plain {segments : List Segment} (h : Merged segments) {s : List Char} (hs : s ≠ [])
    (hnext : ∀ t r, segments ≠ .plain t :: r) : Merged (.plain s :: segments) where
  filled hmem := by
    rcases List.mem_cons.1 hmem with heq | hmem
    · cases heq
      exact hs rfl
    · exact h.filled hmem
  apart s' t hpair := by
    rcases List.infix_cons_iff.1 hpair with hprefix | hpair
    · obtain ⟨r, hr⟩ := (List.cons_prefix_cons.1 hprefix).2
      exact hnext t r hr.symm
    · exact h.apart s' t hpair

theorem consChar {segments : List Segment} (h : Merged segments) (c : Char) :
    Merged (Segment.consChar c segments) := by
  cases segments with
  | nil => exact nil.cons_plain (List.cons_ne_nil c []) nofun
  | cons segment r =>
      cases segment with
      | plain s =>
          -- the text that was there has nothing plain behind it, and that does not change
          refine h.tail.cons_plain (List.cons_ne_nil c s) ?_
          rintro t r' rfl
          exact h.apart s t ⟨[], r', rfl⟩
      | group n => exact h.cons_plain (List.cons_ne_nil c []) nofun

end Merged

/-- **Plain texts are put together** as far as they go. -/
theorem merged_segmentsOf (items : List Item) : Merged (segmentsOf items) := by
  induction items with
  | nil => exact .nil
  | cons item items ih =>
      cases item with
      | plain c => exact ih.consChar c
      | escaped c => exact ih.consChar c
      | named name number => exact ih.cons_group number
      | numbered digits => exact ih.cons_group _

theorem expand_consChar (c : Char) (segments : List Segment) (groupText : Nat → List Char) :
    (Replacement.mk (Segment.consChar c segments)).expand groupText =
      c :: (Replacement.mk segments).expand groupText := by
  cases segments with
  | nil => rfl
  | cons segment r =>
      cases segment with
      | plain s => rfl
      | group n => rfl

/-- **The segments stand for the texts of the items**, one behind the other. -/
theorem expand_segmentsOf (items : List Item) (groupText : Nat → List Char) :
    (Replacement.mk (segmentsOf items)).expand groupText =
      items.flatMap (Item.text groupText) := by
  induction items with
  | nil => rfl
  | cons item items ih =>
      rw [List.flatMap_cons, ← ih]
      cases item with
      | plain c => exact expand_consChar c _ groupText
      | escaped c => exact expand_consChar c _ groupText
      | named name number => rfl
      | numbered digits => rfl

end CallScript.Pattern
