/-!
# Environments

An environment holds at most one value of each kind, and the type of a value depends on its kind. A
host puts in it what its functions need.
-/

namespace CallScript

/-- Values by kind, at most one of each. -/
structure Environment {κ : Type} (β : κ → Type) where
  entries : List (Sigma β)

namespace Environment

variable {κ : Type} [DecidableEq κ] {β : κ → Type}

/-- An environment without values. -/
def empty : Environment β := ⟨[]⟩

/-- The first value of a kind in a list. -/
def find? (k : κ) : List (Sigma β) → Option (β k)
  | [] => none
  | ⟨k', v⟩ :: r => if h : k' = k then some (h ▸ v) else find? k r

/-- The value of a kind. -/
def get? (e : Environment β) (k : κ) : Option (β k) := find? k e.entries

/-- The entries of the other kinds. -/
def without (e : Environment β) (k : κ) : List (Sigma β) := e.entries.filter (·.1 ≠ k)

/-- Puts a value in the place of the one of its kind, which is given back. -/
def insert (e : Environment β) (k : κ) (v : β k) : Option (β k) × Environment β :=
  (e.get? k, ⟨⟨k, v⟩ :: e.without k⟩)

/-- Takes out the value of a kind. -/
def remove (e : Environment β) (k : κ) : Option (β k) × Environment β := (e.get? k, ⟨e.without k⟩)

/-- The number of values. -/
def size (e : Environment β) : Nat := e.entries.length

/-- A text for diagnosis, which tells only how many values there are. -/
def inspect (e : Environment β) : String :=
  "Environment \x7b values: " ++ toString e.size ++ " \x7d"

/-- A value that was put in is found. -/
theorem get?_insert_self (e : Environment β) (k : κ) (v : β k) :
    (e.insert k v).2.get? k = some v := by
  simp [insert, get?, find?]

end Environment

end CallScript
