import CallScript.Proofs.Value.Table

/-!
# Reading what was written

In a table that was made by writing, what is noted as the position of a key is the position of an
entry under that key (`Table.Indexed`). So a value is read where it was written last.

* `get?_set_self`, `get?_set_of_ne`: a write is seen under its key and under no other one;
* `get?_zero_ofList`: the first value of a list is under zero, whatever is pushed behind it;
* `values_ofList`: the values of the table of a list are the list;
* `toList_writeAll`, `get?_writeAll`: entries with new keys that are written one after the other are
  the entries of the table, in their order, and each is read under its key.
-/

namespace CallScript.Table

variable {α β : Type} {t : Table α}

/-! ## 1. Positions -/

/-- What is noted as the position of a key is the position of an entry under the key. -/
def Indexed (t : Table α) : Prop :=
  ∀ (k : Key) (p : Nat), t.positions[k]? = some p → ∃ v : α, t.entries[p]? = some (k, v)

theorem indexed_empty : (empty : Table α).Indexed := by
  intro k p h
  rw [show (empty : Table α).positions = ∅ from rfl, Std.HashMap.getElem?_empty] at h
  cases h

theorem indexed_associative : (associative : Table α).Indexed := by
  intro k p h
  rw [show (associative : Table α).positions = ∅ from rfl, Std.HashMap.getElem?_empty] at h
  cases h

/-- A write to a key that is there changes its entry. -/
theorem set_of_some {k : Key} {p : Nat} (h : t.positions[k]? = some p) (v : α) :
    t.set k v =
      ⟨t.entries.setIfInBounds p (k, v), t.positions, nextAfter t.nextIndex k, t.keyed⟩ := by
  obtain ⟨entries, positions, next, keyed⟩ := t
  have h : positions[k]? = some p := h
  rw [set, h]

/-- A write to a new key adds an entry. -/
theorem set_of_none {k : Key} (h : t.positions[k]? = none) (v : α) :
    t.set k v =
      ⟨t.entries.push (k, v), t.positions.insert k t.entries.size, nextAfter t.nextIndex k,
        t.keyed⟩ := by
  obtain ⟨entries, positions, next, keyed⟩ := t
  have h : positions[k]? = none := h
  rw [set, h]

theorem nextIndex_set (t : Table α) (k : Key) (v : α) :
    (t.set k v).nextIndex = nextAfter t.nextIndex k := by
  cases hk : t.positions[k]? with
  | some p => rw [set_of_some hk]
  | none => rw [set_of_none hk]

theorem keyed_set (t : Table α) (k : Key) (v : α) : (t.set k v).keyed = t.keyed := by
  cases hk : t.positions[k]? with
  | some p => rw [set_of_some hk]
  | none => rw [set_of_none hk]

/-- **A write keeps the positions in order.** -/
theorem Indexed.set (h : t.Indexed) (k : Key) (v : α) : (t.set k v).Indexed := by
  intro k' p' hp'
  cases hk : t.positions[k]? with
  | some p =>
      rw [set_of_some hk] at hp' ⊢
      obtain ⟨old, hold⟩ := h k p hk
      obtain ⟨w, hw⟩ := h k' p' hp'
      dsimp only
      by_cases heq : p = p'
      · subst heq
        rw [hold] at hw
        cases hw
        exact ⟨v, by simp [(Array.getElem?_eq_some_iff.1 hold).1]⟩
      · exact ⟨w, by rw [Array.getElem?_setIfInBounds_ne heq, hw]⟩
  | none =>
      rw [set_of_none hk] at hp' ⊢
      dsimp only at hp' ⊢
      rw [Std.HashMap.getElem?_insert] at hp'
      split at hp'
      · next heq =>
        obtain rfl := eq_of_beq heq
        cases hp'
        exact ⟨v, Array.getElem?_push_size⟩
      · obtain ⟨w, hw⟩ := h k' p' hp'
        have hlt := (Array.getElem?_eq_some_iff.1 hw).1
        exact ⟨w, by rw [Array.getElem?_push_lt hlt, ← Array.getElem?_eq_getElem hlt, hw]⟩

/-- **A value is read under the key that it was written to.** -/
theorem Indexed.get?_set_self (h : t.Indexed) (k : Key) (v : α) :
    (t.set k v).get? k = some v := by
  unfold get?
  cases hk : t.positions[k]? with
  | some p =>
      obtain ⟨old, hold⟩ := h k p hk
      have hlt := (Array.getElem?_eq_some_iff.1 hold).1
      simp [set_of_some hk, hk, hlt]
  | none => simp [set_of_none hk]

/-- **A write is not seen under other keys.** -/
theorem Indexed.get?_set_of_ne (h : t.Indexed) {k k' : Key} (hne : k ≠ k') (v : α) :
    (t.set k v).get? k' = t.get? k' := by
  unfold get?
  cases hk : t.positions[k]? with
  | some p =>
      rw [set_of_some hk]
      dsimp only
      cases hk' : t.positions[k']? with
      | none => rfl
      | some p' =>
          obtain ⟨old, hold⟩ := h k p hk
          have hp : p ≠ p' := by
            rintro rfl
            obtain ⟨w, hw⟩ := h k' p hk'
            rw [hold] at hw
            cases hw
            exact hne rfl
          show Option.map Prod.snd _ = Option.map Prod.snd _
          rw [Array.getElem?_setIfInBounds_ne hp]
  | none =>
      rw [set_of_none hk]
      dsimp only
      rw [Std.HashMap.getElem?_insert, if_neg (by simpa using hne)]
      cases hk' : t.positions[k']? with
      | none => rfl
      | some p' =>
          obtain ⟨w, hw⟩ := h k' p' hk'
          have hlt := (Array.getElem?_eq_some_iff.1 hw).1
          show Option.map Prod.snd _ = Option.map Prod.snd _
          rw [Array.getElem?_push_lt hlt, ← Array.getElem?_eq_getElem hlt]

/-! ## 2. Numbers of entries -/

/-- A write takes no entry away. -/
theorem size_le_set (t : Table α) (k : Key) (v : α) : t.size ≤ (t.set k v).size := by
  cases hk : t.positions[k]? with
  | some p => simp [set_of_some hk, size]
  | none => simp [set_of_none hk, size]

theorem size_le_foldl_set (key : β → Key) (value : β → α) (xs : List β) (t : Table α) :
    t.size ≤ (xs.foldl (fun t x => t.set (key x) (value x)) t).size := by
  induction xs generalizing t with
  | nil => exact Nat.le_refl _
  | cons x xs ih => exact Nat.le_trans (size_le_set t _ _) (ih _)

theorem size_le_pushAll (vs : List α) (t : Table α) : t.size ≤ (vs.foldl push t).size := by
  induction vs generalizing t with
  | nil => exact Nat.le_refl _
  | cons v vs ih => exact Nat.le_trans (size_le_set t _ _) (ih _)

/-- The table of a list is empty only for the empty list, however long the list is. -/
theorem size_ofList_eq_zero_iff {vs : List α} : (ofList vs).size = 0 ↔ vs = [] := by
  constructor
  · intro h
    cases vs with
    | nil => rfl
    | cons v vs =>
        have hone : (empty.push v).size = 1 := by
          rw [push, set_of_none Std.HashMap.getElem?_empty]
          rfl
        have hle : (empty.push v).size ≤ (ofList (v :: vs)).size := size_le_pushAll vs _
        omega
  · rintro rfl
    rfl

/-! ## 3. Tables of lists -/

/-- Behind a positive integer is a positive integer, even if there is none behind it. -/
theorem succ_pos {i : Int64} (h : 0 < i) : 0 < succ i := by
  rw [Int64.lt_iff_toInt_lt, Int64.toInt_zero] at h ⊢
  rw [toInt_succ, Int64.toInt_maxValue]
  omega

/-- What is pushed behind it leaves the value under zero alone. -/
theorem Indexed.get?_zero_pushAll (h : t.Indexed) (hnext : 0 < t.nextIndex) (vs : List α) :
    (vs.foldl push t).get? (.index 0) = t.get? (.index 0) := by
  induction vs generalizing t with
  | nil => rfl
  | cons v vs ih =>
      have hne : Key.index t.nextIndex ≠ .index 0 := by
        intro heq
        rw [Key.index.inj heq] at hnext
        exact absurd hnext (by decide)
      have hself : nextAfter t.nextIndex (.index t.nextIndex) = succ t.nextIndex :=
        if_pos (Int64.le_refl _)
      have hpush : (t.push v).nextIndex = succ t.nextIndex := (nextIndex_set t _ v).trans hself
      have hindexed : (t.push v).Indexed := h.set _ v
      rw [List.foldl_cons, ih hindexed (hpush ▸ succ_pos hnext)]
      exact h.get?_set_of_ne hne v

/-- **The first value of a list is under zero.** -/
theorem get?_zero_ofList (v : α) (vs : List α) :
    (ofList (v :: vs)).get? (.index 0) = some v := by
  have hfirst : (empty.push v).Indexed := indexed_empty.set _ _
  have hnext : 0 < (empty.push v).nextIndex := by
    rw [push, set_of_none Std.HashMap.getElem?_empty]
    exact (by decide : (0 : Int64) < nextAfter 0 (.index 0))
  show (vs.foldl push (empty.push v)).get? (.index 0) = some v
  rw [hfirst.get?_zero_pushAll hnext]
  exact indexed_empty.get?_set_self _ v

/-- **The values of the table of a list are the list**, as long as there are indexes for them. -/
theorem values_ofList {vs : List α} (h : vs.length < 2 ^ 63) : (ofList vs).values = vs := by
  have hall : ∀ (vs : List α) (t : Table α), t.Counted → t.size + vs.length < 2 ^ 63 →
      (vs.foldl push t).values = t.values ++ vs := by
    intro vs
    induction vs with
    | nil => exact fun t _ _ => (List.append_nil _).symm
    | cons v vs ih =>
        intro t ht hsize
        rw [List.length_cons] at hsize
        obtain ⟨hcounted, hadded⟩ := ht.push (by omega) v
        have hfree : t.positions[Key.index t.nextIndex]? = none := by
          rw [ht.next]
          exact ht.free t.size (Nat.le_refl _) (by omega)
        have hvalues : (t.push v).values = t.values ++ [v] := by
          rw [push, set_of_none hfree]
          simp [values, toList]
        rw [List.foldl_cons, ih _ hcounted (by omega), hvalues, List.append_assoc]
        rfl
  exact hall vs empty counted_empty ((Nat.zero_add _).symm ▸ h)

/-- A write brings in no other value. -/
theorem mem_values_set {k : Key} {v w : α} (h : w ∈ (t.set k v).values) : w = v ∨ w ∈ t.values := by
  unfold values at h ⊢
  obtain ⟨e, he, rfl⟩ := List.mem_map.1 h
  have he : e ∈ (t.set k v).entries := Array.mem_toList_iff.1 he
  have hkept : e ∈ t.entries → e.2 ∈ t.toList.map Prod.snd := fun hmem =>
    List.mem_map_of_mem (Array.mem_toList_iff.2 hmem)
  cases hk : t.positions[k]? with
  | some p =>
      rw [set_of_some hk] at he
      rcases Array.mem_or_eq_of_mem_setIfInBounds he with hmem | rfl
      · exact Or.inr (hkept hmem)
      · exact Or.inl rfl
  | none =>
      rw [set_of_none hk] at he
      rcases Array.mem_push.1 he with hmem | rfl
      · exact Or.inr (hkept hmem)
      · exact Or.inl rfl

/-- The values of the table of a list are from the list, however long the list is. -/
theorem mem_of_mem_values_ofList {vs : List α} {w : α} (h : w ∈ (ofList vs).values) : w ∈ vs := by
  have hall : ∀ (vs : List α) (t : Table α), w ∈ (vs.foldl push t).values →
      w ∈ t.values ∨ w ∈ vs := by
    intro vs
    induction vs with
    | nil => exact fun t h => Or.inl h
    | cons v vs ih =>
        intro t h
        rcases ih (t.push v) h with h | h
        · rcases mem_values_set h with rfl | h
          · exact Or.inr List.mem_cons_self
          · exact Or.inl h
        · exact Or.inr (List.mem_cons_of_mem _ h)
  exact (hall vs empty h).resolve_left List.not_mem_nil

/-! ## 4. Entries with new keys -/

/-- The table with the entries written to it, one after the other. -/
def writeAll (t : Table α) (es : List (Key × α)) : Table α := es.foldl (fun t e => t.set e.1 e.2) t

/-- A write notes no position for other keys. -/
theorem positions_set_of_ne {k k' : Key} (hne : k ≠ k') (v : α) :
    (t.set k v).positions[k']? = t.positions[k']? := by
  cases hk : t.positions[k]? with
  | some p => rw [set_of_some hk]
  | none =>
      rw [set_of_none hk]
      dsimp only
      rw [Std.HashMap.getElem?_insert, if_neg (by simpa using hne)]

theorem toList_set_of_none {k : Key} (h : t.positions[k]? = none) (v : α) :
    (t.set k v).toList = t.toList ++ [(k, v)] := by
  rw [set_of_none h]
  exact Array.toList_push

/-- **Entries with new keys stand behind the others, in the order of writing.** -/
theorem toList_writeAll {es : List (Key × α)} (hnew : ∀ e ∈ es, t.positions[e.1]? = none)
    (hd : (es.map Prod.fst).Nodup) : (t.writeAll es).toList = t.toList ++ es := by
  induction es generalizing t with
  | nil => exact (List.append_nil _).symm
  | cons e es ih =>
      obtain ⟨he, hnew⟩ := List.forall_mem_cons.1 hnew
      rw [List.map_cons, List.nodup_cons] at hd
      have hlater : ∀ e' ∈ es, (t.set e.1 e.2).positions[e'.1]? = none := by
        intro e' he'
        have hne : e.1 ≠ e'.1 := fun heq => hd.1 (heq ▸ List.mem_map_of_mem he')
        rw [positions_set_of_ne hne]
        exact hnew e' he'
      show ((t.set e.1 e.2).writeAll es).toList = _
      rw [ih hlater hd.2, toList_set_of_none he, List.append_assoc]
      rfl

/-- Writes to other keys are not seen. -/
theorem Indexed.get?_writeAll_of_not_mem (h : t.Indexed) {es : List (Key × α)} {k : Key}
    (hk : k ∉ es.map Prod.fst) : (t.writeAll es).get? k = t.get? k := by
  induction es generalizing t with
  | nil => rfl
  | cons e es ih =>
      rw [List.map_cons, List.mem_cons, not_or] at hk
      show ((t.set e.1 e.2).writeAll es).get? k = _
      rw [ih (h.set _ _) hk.2, h.get?_set_of_ne (Ne.symm hk.1)]

/-- **Where no key is written twice, each value is read under its key.** -/
theorem Indexed.get?_writeAll (h : t.Indexed) {es : List (Key × α)} (hd : (es.map Prod.fst).Nodup)
    {k : Key} {v : α} (hmem : (k, v) ∈ es) : (t.writeAll es).get? k = some v := by
  induction es generalizing t with
  | nil => exact absurd hmem List.not_mem_nil
  | cons e es ih =>
      rw [List.map_cons, List.nodup_cons] at hd
      show ((t.set e.1 e.2).writeAll es).get? k = _
      rcases List.mem_cons.1 hmem with rfl | hmem
      · rw [(h.set k v).get?_writeAll_of_not_mem hd.1, h.get?_set_self]
      · exact ih (h.set _ _) hd.2 hmem

end CallScript.Table
