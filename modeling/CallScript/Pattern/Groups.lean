import CallScript.Text.Letter

/-!
# Names of groups

Groups are numbered from one in the order of their opening parentheses, and some of them have a name.
A name starts with a letter or an underscore, and no two groups share one: `Groups` carries both as
part of the type, so that every list of groups that can be made has these properties.
-/

namespace CallScript.Pattern

/-- A character that the name of a group may start with. -/
def isGroupNameStart (c : Char) : Bool := c = '_' || Text.isLetter c

/-- A character that the name of a group may go on with. -/
def isGroupNamePart (c : Char) : Bool :=
  c = '_' || c = '.' || c = '[' || c = ']' || Text.isLetter c || Text.isNumeral c

/-- The text may be the start of a group name; this includes no text at all. -/
def isGroupNameText : List Char → Bool
  | [] => true
  | c :: r => isGroupNameStart c && r.all isGroupNamePart

/-- The name of a group. -/
structure GroupName where
  chars : List Char
  chars_ne_nil : chars ≠ []
  isText : isGroupNameText chars = true
deriving DecidableEq

namespace GroupName

/-- The name as a text. -/
def text (n : GroupName) : String := String.ofList n.chars

end GroupName

/-- The groups of a pattern, named or not, in the order of their numbers. -/
structure Groups where
  names : List (Option GroupName)
  distinct : (names.filterMap id).Nodup

namespace Groups

/-- No groups. -/
def empty : Groups := ⟨[], List.nodup_nil⟩

/-- The number of groups. -/
def count (g : Groups) : Nat := g.names.length

/-- The names that are taken. -/
def taken (g : Groups) : List GroupName := g.names.filterMap id

/-- One more group, with the next number. A name that is taken is refused. -/
def add? (g : Groups) : Option GroupName → Option Groups
  | none => some ⟨g.names ++ [none], by simpa using g.distinct⟩
  | some n =>
    if h : n ∈ g.taken then none
    else some ⟨g.names ++ [some n], by
      have hd := g.distinct
      simp only [taken] at h
      simp only [List.filterMap_append, List.nodup_append]
      refine ⟨hd, by simp, ?_⟩
      intro a ha b hb
      simp at hb
      rintro rfl
      exact h (hb ▸ ha)⟩

/-- The names of the groups that `keep` retains, up to the last number that it retains; the other
    groups have no name. -/
def restrictNames (keep : Nat → Bool) (k : Nat) :
    List (Option GroupName) → List (Option GroupName)
  | [] => []
  | n :: r =>
    let later := restrictNames keep (k + 1) r
    if keep k then n :: later else if later.isEmpty then [] else none :: later

theorem restrictNames_sublist (keep : Nat → Bool) (k : Nat) (names : List (Option GroupName)) :
    ((restrictNames keep k names).filterMap id).Sublist (names.filterMap id) := by
  induction names generalizing k with
  | nil => simp [restrictNames]
  | cons n r ih =>
    simp only [restrictNames]
    split
    · cases n with
      | none => simpa using ih (k + 1)
      | some a => simpa using (ih (k + 1)).cons_cons a
    · have h : ((restrictNames keep (k + 1) r).filterMap id).Sublist ((n :: r).filterMap id) := by
        cases n with
        | none => simpa using ih (k + 1)
        | some a => simpa using (ih (k + 1)).cons a
      split
      · simp
      · simpa using h

/-- The groups with these numbers, and nameless ones in the gaps before them. -/
def restrict (g : Groups) (numbers : List Nat) : Groups :=
  ⟨restrictNames (numbers.contains ·) 1 g.names,
    (restrictNames_sublist _ _ _).nodup g.distinct⟩

/-- The number, from one on, of the first group with the name. -/
def numberOf? (g : Groups) (name : String) : Option Nat :=
  (g.names.findIdx? fun n => n.any (·.text = name)).map (· + 1)

end Groups

end CallScript.Pattern
