import CallScript.Text.Decimal

/-!
# Array keys

An entry of an array is addressed by an index or by a name. A name that is the decimal text of an
integer, exactly as that integer is written, is the same key as the index.
-/

namespace CallScript

/-- The key of an array entry. -/
inductive Key
  | index (i : Int64)
  | name (s : String)
deriving DecidableEq, Hashable, Repr

namespace Key

/-- The key that a text addresses. -/
def ofText (s : String) : Key :=
  match Decimal.parse? s with
  | some i => if Decimal.render i = s then .index i else .name s
  | none => .name s

/-- The text of a key. -/
def render : Key → String
  | .index i => Decimal.render i
  | .name s => s

/-- A text is the text of its key. -/
theorem render_ofText (s : String) : (ofText s).render = s := by
  unfold ofText
  split
  · split <;> simp_all [render]
  · rfl

/-- The decimal text of an integer addresses its index. -/
theorem ofText_render_index (i : Int64) : ofText (render (.index i)) = .index i := by
  simp [ofText, render, Decimal.parse?_render]

end Key

end CallScript
