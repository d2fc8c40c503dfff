import CallScript.Proofs.Registry.Tables
import CallScript.Reference
import Mathlib.Data.List.Forall2

/-!
# The reference as a table

A reader of the Markdown reference cuts it into lines, and a line at each vertical bar that has no
backslash directly in front of it (`cutAtBars`).

* `Whole`: in such a text every bar has a backslash in front of it. What is escaped for a cell is whole
  (`whole_cell`), and so is what has no bar;
* `isRow_row`: a row of whole texts is cut into these texts;
* `generate_eq_error_iff`: there is no reference exactly if a name is not registered, and the first such
  name is told;
* `markdown_rows`: with a registry whose names keep to their cells, the reference is two lines of a head
  and one row of six cells for each function, in order.
-/

namespace CallScript.Reference

/-! ## 1. Lines and cells -/

/-- The lines of a text. -/
def cutIntoLines (s : String) : List (List Char) := s.toList.splitOn '\n'

/-- A character more in front of the first piece. -/
def inFront (c : Char) : List (List Char) → List (List Char)
  | [] => [[c]]
  | piece :: pieces => (c :: piece) :: pieces

/-- The pieces of a line between the bars at which it is cut. A bar directly behind a backslash does not
    cut; the flag says that there is one in front of the line. -/
def cutAtBars (behindBackslash : Bool) : List Char → List (List Char)
  | [] => [[]]
  | c :: cs =>
    if c = '|' ∧ behindBackslash = false then [] :: cutAtBars false cs
    else inFront c (cutAtBars (decide (c = '\\')) cs)

/-- The line is a row with these cells: it begins and ends with a bar, and there are blanks around the
    text of a cell. -/
def IsRow (line : List Char) (cells : List (List Char)) : Prop :=
  cutAtBars false line = [] :: cells.map (fun cell => ' ' :: cell ++ [' ']) ++ [[]]

/-- Every bar of the text has a backslash directly in front of it. -/
inductive Whole : List Char → Prop
  | nil : Whole []
  | char {c : Char} {cs : List Char} (hc : c ≠ '|') (h : Whole cs) : Whole (c :: cs)
  | bar {cs : List Char} (h : Whole cs) : Whole ('\\' :: '|' :: cs)

variable {s t : List Char}

theorem cutAtBars_bar (cs : List Char) : cutAtBars false ('|' :: cs) = [] :: cutAtBars false cs :=
  if_pos ⟨rfl, rfl⟩

theorem cutAtBars_char {c : Char} (hc : c ≠ '|') (b : Bool) (cs : List Char) :
    cutAtBars b (c :: cs) = inFront c (cutAtBars (decide (c = '\\')) cs) :=
  if_neg fun h => hc h.1

/-- **A whole text is not cut.** The bar behind the blank behind it is the first one to cut. -/
theorem Whole.cut (h : Whole s) (b : Bool) (cs : List Char) :
    cutAtBars b (s ++ ' ' :: '|' :: cs) = (s ++ [' ']) :: cutAtBars false cs := by
  induction h generalizing b with
  | nil =>
      show cutAtBars b (' ' :: '|' :: cs) = _
      rw [cutAtBars_char (by decide), show decide (' ' = '\\') = false from rfl, cutAtBars_bar]
      rfl
  | char hc _ ih =>
      rw [List.cons_append, cutAtBars_char hc, ih]
      rfl
  | bar _ ih =>
      rw [List.cons_append, cutAtBars_char (by decide), List.cons_append]
      have hbar : ∀ ds,
          cutAtBars (decide ('\\' = '\\')) ('|' :: ds) = inFront '|' (cutAtBars false ds) :=
        fun _ => if_neg fun h => Bool.noConfusion h.2
      rw [hbar, ih]
      rfl

theorem whole_of_notMem (h : '|' ∉ s) : Whole s := by
  induction s with
  | nil => exact .nil
  | cons c cs ih =>
      rw [List.mem_cons, not_or] at h
      exact .char (Ne.symm h.1) (ih h.2)

theorem whole_cellChars (cs : List Char) : Whole (cs.flatMap cellChar) := by
  induction cs with
  | nil => exact .nil
  | cons c cs ih =>
      rw [List.flatMap_cons]
      unfold cellChar
      split
      · exact .bar ih
      · next hbar =>
        split
        · exact .char (by decide) ih
        · exact .char hbar ih

/-! ## 2. Rows -/

/-- The text stays within one cell of one line. -/
structure FitsCell (s : String) : Prop where
  whole : Whole s.toList
  notMem : '\n' ∉ s.toList

/-- The text has neither a bar nor a line feed. -/
def Plain (s : String) : Prop := '|' ∉ s.toList ∧ '\n' ∉ s.toList

instance (s : String) : Decidable (Plain s) := inferInstanceAs (Decidable (_ ∧ _))

theorem Plain.fitsCell {s : String} (h : Plain s) : FitsCell s := ⟨whole_of_notMem h.1, h.2⟩

theorem plain_append {s t : String} (hs : Plain s) (ht : Plain t) : Plain (s ++ t) := by
  simp only [Plain, String.toList_append, List.mem_append, not_or]
  exact ⟨⟨hs.1, ht.1⟩, hs.2, ht.2⟩

theorem plain_code {s : String} (h : Plain s) : Plain (code s) :=
  plain_append (plain_append (by decide) h) (by decide)

/-- What is joined from texts has no other characters than these and those in between. -/
theorem mem_intercalate {c : Char} {sep : List Char} {ls : List (List Char)}
    (h : c ∈ sep.intercalate ls) : c ∈ sep ∨ ∃ l ∈ ls, c ∈ l := by
  induction ls with
  | nil => cases h
  | cons l ls ih =>
      cases ls with
      | nil => exact .inr ⟨l, List.mem_cons_self, by simpa using h⟩
      | cons l' ls =>
          rw [List.intercalate_cons_cons, List.append_assoc, List.mem_append, List.mem_append] at h
          rcases h with h | h | h
          · exact .inr ⟨l, List.mem_cons_self, h⟩
          · exact .inl h
          · exact (ih h).imp_right fun ⟨k, hk, hc⟩ => ⟨k, List.mem_cons_of_mem _ hk, hc⟩

theorem plain_intercalate {sep : String} {ss : List String} (hsep : Plain sep)
    (hss : ∀ s ∈ ss, Plain s) : Plain (sep.intercalate ss) := by
  have hnotMem : ∀ c : Char, c ∉ sep.toList → (∀ s ∈ ss, c ∉ s.toList) →
      c ∉ (sep.intercalate ss).toList := by
    intro c hsep hss h
    rw [String.toList_intercalate] at h
    rcases mem_intercalate h with h | ⟨l, hl, h⟩
    · exact hsep h
    · obtain ⟨s, hs, rfl⟩ := List.mem_map.1 hl
      exact hss s hs h
  exact ⟨hnotMem _ hsep.1 fun s hs => (hss s hs).1, hnotMem _ hsep.2 fun s hs => (hss s hs).2⟩

theorem plain_toString (n : Nat) : Plain (toString n) := by
  have hdigits : ∀ c ∈ (toString n).toList, c.isDigit = true := by
    intro c hc
    rw [Nat.toString_eq_repr, Nat.toList_repr] at hc
    exact Nat.isDigit_of_mem_toDigits (by decide) (by decide) hc
  exact ⟨fun h => absurd (hdigits _ h) (by decide), fun h => absurd (hdigits _ h) (by decide)⟩

theorem plain_arity (a : Arity) : Plain a.render := by
  cases a with
  | fixed n => exact plain_toString _
  | range min max =>
      refine plain_intercalate (by decide) fun s hs => ?_
      obtain ⟨n, -, rfl⟩ := List.mem_map.1 hs
      exact plain_toString n
  | atLeast min => exact plain_append (plain_toString _) (by decide)

theorem plain_kind (k : Exception.Kind) : Plain k.render := by
  cases k <;> decide

/-- **What is escaped for a cell stays within it**, whatever it is. -/
theorem fitsCell_cell (s : String) : FitsCell (cell s) where
  whole := by
    rw [cell, String.toList_ofList]
    exact whole_cellChars s.toList
  notMem := by
    rw [cell, String.toList_ofList, List.mem_flatMap]
    rintro ⟨c, -, hc⟩
    unfold cellChar at hc
    split at hc
    · exact absurd hc (by decide)
    · split at hc
      · exact absurd hc (by decide)
      · next hfeed => exact hfeed (List.mem_singleton.1 hc).symm

/-- A row is made of its cells, each with a blank in front of it and a blank and a bar behind it. -/
theorem toList_row (cell : String) (cells : List String) :
    (row (cell :: cells)).toList =
      '|' :: (cell :: cells).flatMap fun c => ' ' :: c.toList ++ [' ', '|'] := by
  have hjoin : ∀ (c : String) (cs : List String),
      ' ' :: " | ".toList.intercalate ((c :: cs).map String.toList) ++ [' ', '|'] =
        (c :: cs).flatMap fun c => ' ' :: c.toList ++ [' ', '|'] := by
    intro c cs
    induction cs generalizing c with
    | nil => simp
    | cons c' cs ih =>
        rw [List.flatMap_cons, ← ih, List.map_cons, List.map_cons, List.intercalate_cons_cons]
        simp
  rw [← hjoin, row, String.toList_append, String.toList_append, String.toList_intercalate]
  rfl

/-- **A row of whole texts is cut into these texts.** -/
theorem isRow_row {cell : String} {cells : List String} (h : ∀ c ∈ cell :: cells, Whole c.toList) :
    IsRow (row (cell :: cells)).toList ((cell :: cells).map String.toList) := by
  have hcut : ∀ cs : List String, (∀ c ∈ cs, Whole c.toList) →
      cutAtBars false (cs.flatMap fun c => ' ' :: c.toList ++ [' ', '|']) =
        (cs.map String.toList).map (fun c => ' ' :: c ++ [' ']) ++ [[]] := by
    intro cs
    induction cs with
    | nil => exact fun _ => rfl
    | cons c cs ih =>
        intro hcs
        obtain ⟨hc, hcs⟩ := List.forall_mem_cons.1 hcs
        have hcell := (Whole.char (show ' ' ≠ '|' by decide) hc).cut false
          (cs.flatMap fun c => ' ' :: c.toList ++ [' ', '|'])
        rw [ih hcs] at hcell
        rw [List.flatMap_cons, List.append_assoc]
        exact hcell
  rw [IsRow, toList_row, cutAtBars_bar, hcut _ h]
  rfl

theorem feed_notMem_row {cell : String} {cells : List String}
    (h : ∀ c ∈ cell :: cells, '\n' ∉ c.toList) : '\n' ∉ (row (cell :: cells)).toList := by
  rw [toList_row, List.mem_cons, List.mem_flatMap, not_or]
  refine ⟨by decide, ?_⟩
  rintro ⟨c, hc, hmem⟩
  rcases List.mem_append.1 hmem with hmem | hmem
  · rcases List.mem_cons.1 hmem with hmem | hmem
    · exact absurd hmem (by decide)
    · exact h c hc hmem
  · exact absurd hmem (by decide)

/-- The cells of a function. -/
def functionCells (f : Function) : List String :=
  [code f.name, f.arity.render, cell f.docs, ", ".intercalate (f.params.map code),
   ", ".intercalate (f.thrown.map Exception.Kind.render), cell (firstExample f)]

/-- The names of the function and of its parameters are plain. Its description and its examples may be
    anything. -/
def PlainNames (f : Function) : Prop := Plain f.name ∧ ∀ p ∈ f.params, Plain p

/-- What is told of a function with plain names stays within its cells. -/
theorem PlainNames.fitsCell {f : Function} (hf : PlainNames f) :
    ∀ c ∈ functionCells f, FitsCell c := by
  have hparams : Plain (", ".intercalate (f.params.map code)) := by
    refine plain_intercalate (by decide) fun s hs => ?_
    obtain ⟨p, hp, rfl⟩ := List.mem_map.1 hs
    exact plain_code (hf.2 p hp)
  have hthrown : Plain (", ".intercalate (f.thrown.map Exception.Kind.render)) := by
    refine plain_intercalate (by decide) fun s hs => ?_
    obtain ⟨k, -, rfl⟩ := List.mem_map.1 hs
    exact plain_kind k
  simp only [functionCells, List.forall_mem_cons, List.not_mem_nil, false_implies, implies_true,
    and_true]
  exact ⟨(plain_code hf.1).fitsCell, (plain_arity _).fitsCell, fitsCell_cell _, hparams.fitsCell,
    hthrown.fitsCell, fitsCell_cell _⟩

/-! ## 3. The functions that are described -/

variable {r : Registry} {names : List String}

/-- There is no selection exactly if a name is not registered. The first such name is told. -/
theorem select_eq_error_iff {e : UnknownFunction} :
    select r names = .error e ↔ names.find? (fun name => (r.get? name).isNone) = some e.name := by
  induction names with
  | nil => exact ⟨nofun, nofun⟩
  | cons name names ih =>
      rw [select, List.find?_cons]
      cases hf : r.get? name with
      | none =>
          cases e
          exact ⟨fun h => by cases h; rfl, fun h => by cases h; rfl⟩
      | some f =>
          rw [show (some f).isNone = false from rfl, ← ih]
          cases select r names with
          | error e' => exact Iff.rfl
          | ok fs => exact ⟨nofun, nofun⟩

/-- Where all names are listed, their functions are selected, in the same order. -/
theorem select_of_listed (hr : r.IsTable) (h : ∀ name ∈ names, name ∈ r.names) :
    ∃ fs, select r names = .ok fs ∧ fs.map Function.name = names ∧ ∀ f ∈ fs, f ∈ r.toList := by
  induction names with
  | nil => exact ⟨[], rfl, rfl, nofun⟩
  | cons name names ih =>
      obtain ⟨hname, hnames⟩ := List.forall_mem_cons.1 h
      obtain ⟨f, hf⟩ := hr.exists_of_mem_names hname
      obtain ⟨fs, hfs, hmap, hlisted⟩ := ih hnames
      obtain rfl := hr.name_eq name f hf
      refine ⟨f :: fs, ?_, congrArg _ hmap, List.forall_mem_cons.2 ⟨hr.mem_toList_iff.2 hf, hlisted⟩⟩
      rw [select, hf, hfs]
      rfl

/-- **There is no reference exactly if a name is not registered.** The first such name is told. -/
theorem generate_eq_error_iff {format : Format} {e : UnknownFunction} :
    generate r names format = .error e ↔
      names.find? (fun name => (r.get? name).isNone) = some e.name := by
  rw [← select_eq_error_iff, generate, chosen]
  cases names with
  | nil => exact ⟨nofun, nofun⟩
  | cons name names =>
      rw [if_neg (by exact Bool.false_ne_true)]
      cases select r (name :: names) with
      | error e' =>
          exact ⟨fun h => congrArg _ (Except.error.inj h), fun h => congrArg _ (Except.error.inj h)⟩
      | ok fs => exact ⟨nofun, nofun⟩

/-- A table has no reference exactly if it does not list a name. -/
theorem generate_fails_iff (hr : r.IsTable) (format : Format) :
    (∃ e, generate r names format = .error e) ↔ ∃ name ∈ names, name ∉ r.names := by
  have hnone : ∀ name, (r.get? name).isNone = true ↔ name ∉ r.names := by
    intro name
    rw [Option.isNone_iff_eq_none, hr.mem_names_iff, Std.HashMap.mem_iff_isSome_getElem?,
      Option.not_isSome_iff_eq_none]
    exact Iff.rfl
  simp only [generate_eq_error_iff]
  constructor
  · rintro ⟨e, he⟩
    exact ⟨e.name, List.mem_of_find?_eq_some he, (hnone e.name).1 (by simpa using List.find?_some he)⟩
  · rintro ⟨name, hname, hnew⟩
    have hfind : (names.find? fun name => (r.get? name).isNone).isSome = true :=
      List.find?_isSome.2 ⟨name, hname, (hnone name).2 hnew⟩
    obtain ⟨first, hfirst⟩ := Option.isSome_iff_exists.1 hfind
    exact ⟨⟨first⟩, hfirst⟩

/-- The names that are described: those of the request, or all if it has none. -/
def described (r : Registry) (names : List String) : List String :=
  if names.isEmpty then r.names else names

/-- The functions that are described are those with the names, in the same order. -/
theorem chosen_of_listed (hr : r.IsTable) (h : ∀ name ∈ names, name ∈ r.names) :
    ∃ fs, chosen r names = .ok fs ∧ fs.map Function.name = described r names ∧
      ∀ f ∈ fs, f ∈ r.toList := by
  cases names with
  | nil => exact ⟨r.toList, rfl, hr.map_name_toList, fun _ => id⟩
  | cons name names => exact select_of_listed hr h

/-! ## 4. The table -/

/-- The lines of the table are its head and one row for each function. -/
theorem cutIntoLines_markdown {fs : List Function} (h : ∀ f ∈ fs, PlainNames f) :
    cutIntoLines (markdown fs) = (header ++ fs.map functionRow).map String.toList := by
  rw [cutIntoLines, markdown, String.toList_intercalate]
  refine List.splitOn_intercalate '\n' (fun line hline => ?_) (by simp [header])
  obtain ⟨s, hs, rfl⟩ := List.mem_map.1 hline
  rcases List.mem_append.1 hs with hs | hs
  · have hheader : ∀ s ∈ header, '\n' ∉ s.toList := by decide
    exact hheader s hs
  · obtain ⟨f, hf, rfl⟩ := List.mem_map.1 hs
    exact feed_notMem_row fun c hc => ((h f hf).fitsCell c hc).notMem

/-- **The Markdown reference is a table.** There is none exactly if a name is not registered. Else it has
    two lines at the head, and behind them a row for each function, in the order of the request or else
    of registration. A row has six cells, and the first one has the name as code. -/
theorem markdown_rows {r : Registry} (hr : r.IsTable) (hplain : ∀ f ∈ r.toList, PlainNames f)
    (names : List String) :
    (∀ format, (∃ e, generate r names format = .error e) ↔ ∃ name ∈ names, name ∉ r.names) ∧
      ((∀ name ∈ names, name ∈ r.names) → ∃ text rows, generate r names .markdown = .ok text ∧
        cutIntoLines text =
          "| Function Name | Arity | Description | Parameters | Throws | Example |".toList ::
            "| --- | --- | --- | --- | --- | --- |".toList :: rows ∧
        List.Forall₂ (fun name line =>
          ∃ c₂ c₃ c₄ c₅ c₆, IsRow line [(code name).toList, c₂, c₃, c₄, c₅, c₆])
          (described r names) rows) := by
  refine ⟨fun format => generate_fails_iff hr format, fun hnames => ?_⟩
  obtain ⟨fs, hfs, hmap, hlisted⟩ := chosen_of_listed hr hnames
  have hfunctions : ∀ f ∈ fs, PlainNames f := fun f hf => hplain f (hlisted f hf)
  refine ⟨markdown fs, fs.map fun f => (functionRow f).toList, ?_, ?_, ?_⟩
  · rw [generate, hfs]
    rfl
  · rw [cutIntoLines_markdown hfunctions, List.map_append, List.map_map]
    rfl
  · rw [← hmap, List.forall₂_map_left_iff, List.forall₂_map_right_iff, List.forall₂_same]
    exact fun f hf =>
      ⟨_, _, _, _, _, isRow_row fun c hc => ((hfunctions f hf).fitsCell c hc).whole⟩

/-- A function whose description has bars and line feeds. -/
def barred : Function :=
  .ofPure
    { name := "a\\"
      arity := .range 3 2
      params := []
      docs := "a|b\\|\nc\\"
      examples := [⟨"", "x|y", "|\n|"⟩]
      thrown := []
      treatments := [] }
    (fun _ => .ok .null) Function.noCheck Function.noRewrite

/-- It is described twice, each time in one row of six cells. -/
theorem markdown_rows_barred :
    (Registry.empty.extend [barred]).IsTable ∧
      (∀ f ∈ (Registry.empty.extend [barred]).toList, PlainNames f) ∧
      ∃ text row₁ row₂, generate (Registry.empty.extend [barred]) ["a\\", "a\\"] .markdown = .ok text ∧
        (cutIntoLines text).drop 2 = [row₁, row₂] ∧
        (∃ c₂ c₃ c₄ c₅ c₆, IsRow row₁ [['`', 'a', '\\', '`'], c₂, c₃, c₄, c₅, c₆]) ∧
        ∃ c₂ c₃ c₄ c₅ c₆, IsRow row₂ [['`', 'a', '\\', '`'], c₂, c₃, c₄, c₅, c₆] := by
  have htable := Registry.isTable_empty.extend [barred]
  have hlist : (Registry.empty.extend [barred]).toList = [barred] :=
    Registry.isTable_empty.toList_registerNew (Registry.isTable_empty.contains_eq _)
  have hnames : (Registry.empty.extend [barred]).names = ["a\\"] :=
    Registry.names_registerNew (Registry.isTable_empty.contains_eq _)
  have hplain : ∀ f ∈ (Registry.empty.extend [barred]).toList, PlainNames f := by
    rw [hlist, List.forall_mem_singleton]
    exact ⟨by decide, nofun⟩
  obtain ⟨-, hrows⟩ := markdown_rows htable hplain ["a\\", "a\\"]
  obtain ⟨text, rows, htext, hlines, hall⟩ := hrows (by rw [hnames]; decide)
  cases hall with
  | cons h₁ hall =>
      cases hall with
      | cons h₂ hall =>
          cases hall
          exact ⟨htable, hplain, text, _, _, htext, by rw [hlines]; rfl, h₁, h₂⟩

end CallScript.Reference
