import CallScript.Function.Array
import CallScript.Proofs.Value.Writes

/-!
# What addresses an entry

An entry of an array is addressed by an integer or by a text. Every text addresses a key of its own, the
one whose text it is; so an entry under an index has two addresses, the integer and its decimal text.

* `Key.ofText_injective`, `Key.ofText_eq_index_iff`: texts and the keys that they address;
* `execute_arrayGet_of_keyOf`: what is read at an address;
* `arrayGet_addresses`: for every array and every integer, both addresses read what was written last under
  the index, and no other text reads anything of it.
-/

namespace CallScript

/-! ## 1. Texts and keys -/

namespace Key

/-- **No two texts address the same key.** -/
theorem ofText_injective : Function.Injective ofText := by
  intro s s' h
  rw [← render_ofText s, ← render_ofText s', h]

/-- An index is addressed by its decimal text and by no other text. -/
theorem ofText_eq_index_iff (s : String) (i : Int64) :
    ofText s = .index i ↔ s = Decimal.render i := by
  constructor
  · intro h
    rw [← render_ofText s, h]
    rfl
  · rintro rfl
    exact ofText_render_index i

end Key

namespace Function

open Table (written)

variable {t : Table Value} {x : Value} {k : Key}

/-! ## 2. Reading at an address -/

/-- What is read under a key: the value, or an exception that names the key. -/
def readAt (t : Table Value) (k : Key) (place : Place) : Except Exception Value :=
  match t.get? k with
  | some v => .ok v
  | none => .error ⟨.keyMissing k, place⟩

/-- **At an address, what is under its key is read.** -/
theorem execute_arrayGet_of_keyOf (hx : keyOf x = .ok k) (place : Place) (w : World) :
    arrayGet.execute [.array t, x] place w = (readAt t k place, w) := by
  have hread : lookUp [.array t, x] =
      match t.get? k with
      | some v => .ok v
      | none => .error (.keyMissing k) := by
    show (keyOf x >>= fun key => _) = _
    rw [hx]
    rfl
  show (raiseAt place (lookUp [.array t, x]), w) = _
  rw [hread, readAt]
  cases t.get? k with
  | some v => rfl
  | none => rfl

theorem readAt_of_some {v : Value} (h : t.get? k = some v) (place : Place) :
    readAt t k place = .ok v := by
  rw [readAt, h]

theorem readAt_of_none (h : t.get? k = none) (place : Place) :
    readAt t k place = .error ⟨.keyMissing k, place⟩ := by
  rw [readAt, h]

/-- A write is not read under other keys. -/
theorem readAt_set_of_ne (ht : t.Indexed) {k' : Key} (hne : k ≠ k') (v : Value) (place : Place) :
    readAt (t.set k v) k' place = readAt t k' place := by
  rw [readAt, ht.get?_set_of_ne hne, readAt]

/-! ## 3. The two addresses of an entry -/

/-- **An entry under an index is addressed by the integer and by its decimal text**, and by no other text.
    Every text is the text of the key that it addresses, so that different texts address different
    entries, and the decimal text of an integer addresses the index. In every array, the integer and its
    text read the value that was written last under the index, or raise the same exception if none was;
    and what is written there is not seen under any other text. -/
theorem arrayGet_addresses (keyed : Bool) (ws : List (Write Value)) (i : Int64) (place : Place)
    (w : World) :
    (∀ s, (Key.ofText s).render = s) ∧ Function.Injective Key.ofText ∧
    (∀ s, Key.ofText s = .index i ↔ s = Decimal.render i) ∧
    (∀ x, x = .integer i ∨ x = .string (Decimal.render i) →
      (∃ v, (Write.history ws).reverse.lookup (.index i) = some v ∧
        arrayGet.execute [.array (written keyed ws), x] place w = (.ok v, w)) ∨
      (∃ e, (Write.history ws).reverse.lookup (.index i) = none ∧ e.kind = .indexOverflow ∧
        e = ⟨.keyMissing (.index i), place⟩ ∧
        arrayGet.execute [.array (written keyed ws), x] place w = (.error e, w))) ∧
    ∀ s, s ≠ Decimal.render i → ∀ v,
      arrayGet.execute [.array ((written keyed ws).set (.index i) v), .string s] place w =
        arrayGet.execute [.array (written keyed ws), .string s] place w := by
  have h := Table.follows_written keyed ws
  refine ⟨Key.render_ofText, Key.ofText_injective, (Key.ofText_eq_index_iff · i), fun x hx => ?_,
    fun s hs v => ?_⟩
  · have hkey : keyOf x = .ok (.index i) := by
      rcases hx with rfl | rfl
      · rfl
      · exact congrArg Except.ok (Key.ofText_render_index i)
    have hvalue := h.value (.index i)
    rw [execute_arrayGet_of_keyOf hkey, ← hvalue]
    cases hget : (written keyed ws).get? (.index i) with
    | some v => exact Or.inl ⟨v, rfl, by rw [readAt_of_some hget]⟩
    | none => exact Or.inr ⟨_, rfl, rfl, rfl, by rw [readAt_of_none hget]⟩
  · have hne : Key.index i ≠ Key.ofText s := fun heq => hs ((Key.ofText_eq_index_iff s i).1 heq.symm)
    rw [execute_arrayGet_of_keyOf rfl, execute_arrayGet_of_keyOf rfl,
      readAt_set_of_ne h.placed.indexed hne]

end Function

end CallScript
