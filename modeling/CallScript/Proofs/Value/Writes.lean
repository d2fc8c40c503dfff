import Mathlib.Data.List.Induction
import Mathlib.Data.List.Nodup
import CallScript.Proofs.Value.Entries
import CallScript.Value

/-!
# Tables as histories of writes

A table is made without entries and then only written to (`Table.written`). What was written, and under
which key, is told without a table (`Write.history`): a push writes under the next index behind the
keys so far, which is one past the largest index among them (`Key.nextBehind`).

* `written_records`: the table is the ordered map of its history (`Table.Records`), whatever was written;
* `push_appends_iff`: a push adds an entry, and leaves the others alone, exactly if nothing was written
  under the largest integer. Otherwise it writes there, over what is there (`Follows.push_over`).
-/

namespace CallScript

/-! ## 1. The next index -/

namespace Key

/-- One past an index that is not negative, and zero for every other key. -/
def behind : Key → Nat
  | .index i => (i.toInt + 1).toNat
  | .name _ => 0

/-- What is past all keys. -/
def pastAll (ks : List Key) : Nat := ks.foldl (fun m k => max m k.behind) 0

/-- The next index behind the keys: one past the largest index among them that is not negative, zero if
    there is none, and never more than the largest integer. -/
def nextBehind (ks : List Key) : Int64 := Int64.ofNat (min (pastAll ks) (2 ^ 63 - 1))

theorem pastAll_concat (ks : List Key) (k : Key) :
    pastAll (ks ++ [k]) = max (pastAll ks) k.behind := List.foldl_concat ..

theorem behind_le_pastAll {ks : List Key} {k : Key} (h : k ∈ ks) : k.behind ≤ pastAll ks := by
  induction ks using List.reverseRecOn with
  | nil => cases h
  | append_singleton ks k' ih =>
      rw [pastAll_concat]
      rcases List.mem_append.1 h with h | h
      · exact Nat.le_trans (ih h) (Nat.le_max_left _ _)
      · obtain rfl := List.mem_singleton.1 h
        exact Nat.le_max_right _ _

theorem toInt_nextBehind (ks : List Key) :
    (nextBehind ks).toInt = (min (pastAll ks) (2 ^ 63 - 1) : Nat) :=
  Int64.toInt_ofNat_of_lt (by omega)

/-- The next index is behind all keys, but where there is no index behind them. -/
theorem eq_last_of_nextBehind_mem {ks : List Key} (h : .index (nextBehind ks) ∈ ks) :
    nextBehind ks = Int64.maxValue := by
  have hle : ((nextBehind ks).toInt + 1).toNat ≤ pastAll ks := behind_le_pastAll h
  have hnext := toInt_nextBehind ks
  rw [← Int64.toInt_inj, Int64.toInt_maxValue]
  omega

/-- Behind the largest integer there is no index. -/
theorem nextBehind_eq_last {ks : List Key} (h : .index Int64.maxValue ∈ ks) :
    nextBehind ks = Int64.maxValue := by
  have hle : (Int64.maxValue.toInt + 1).toNat ≤ pastAll ks := behind_le_pastAll h
  have hnext := toInt_nextBehind ks
  rw [Int64.toInt_maxValue] at hle
  rw [← Int64.toInt_inj, Int64.toInt_maxValue]
  omega

end Key

namespace Table

/-- **A write moves the next index behind its key.** -/
theorem nextAfter_nextBehind (ks : List Key) (k : Key) :
    nextAfter (Key.nextBehind ks) k = Key.nextBehind (ks ++ [k]) := by
  rw [← Int64.toInt_inj, Key.toInt_nextBehind, Key.pastAll_concat]
  have hnext := Key.toInt_nextBehind ks
  cases k with
  | name s =>
      show (Key.nextBehind ks).toInt = (min (max (Key.pastAll ks) 0) (2 ^ 63 - 1) : Nat)
      rw [Nat.max_zero, hnext]
  | index i =>
      show (if Key.nextBehind ks ≤ i then succ i else Key.nextBehind ks).toInt =
        (min (max (Key.pastAll ks) (i.toInt + 1).toNat) (2 ^ 63 - 1) : Nat)
      split
      · next h =>
        rw [Int64.le_iff_toInt_le] at h
        rw [toInt_succ, Int64.toInt_maxValue]
        omega
      · next h =>
        rw [Int64.le_iff_toInt_le] at h
        omega

variable {α : Type} {t : Table α} {k : Key} {p : Nat}

/-! ## 2. Keys in order -/

/-- The keys in order. -/
def keys (t : Table α) : List Key := t.toList.map Prod.fst

theorem length_keys (t : Table α) : t.keys.length = t.size := by
  rw [keys, List.length_map]
  exact Array.length_toList

/-- The keys are counted from a number on exactly if they are the indexes from there on. -/
theorem countsFrom_iff (i : Nat) (es : List (Key × α)) :
    countsFrom i es = true ↔
      es.map Prod.fst = (List.range es.length).map fun j => Key.index (Int64.ofNat (i + j)) := by
  induction es generalizing i with
  | nil => simp [countsFrom]
  | cons e es ih =>
      have hshift : ∀ j, i + 1 + j = i + (j + 1) := fun j => by omega
      rw [countsFrom, Bool.and_eq_true, decide_eq_true_eq, ih, List.map_cons, List.length_cons,
        List.range_succ_eq_map, List.map_cons, List.map_map, List.cons.injEq]
      simp only [hshift]
      rfl

theorem getElem?_keys (t : Table α) (p : Nat) : t.keys[p]? = t.entries[p]?.map Prod.fst := by
  rw [keys, List.getElem?_map, toList, Array.getElem?_toList]

/-! ## 3. Positions -/

/-- The keys have their positions noted, and nothing else has one. -/
def Placed (t : Table α) : Prop :=
  ∀ (k : Key) (p : Nat), t.positions[k]? = some p ↔ t.keys[p]? = some k

theorem placed_of_empty (keyed : Bool) : (⟨#[], ∅, 0, keyed⟩ : Table α).Placed := by
  intro k p
  show (∅ : Std.HashMap Key Nat)[k]? = some p ↔ none = some k
  rw [Std.HashMap.getElem?_empty]
  exact iff_of_false nofun nofun

theorem Placed.indexed (h : t.Placed) : t.Indexed := by
  intro k p hp
  have hkey := (h k p).1 hp
  rw [getElem?_keys] at hkey
  obtain ⟨⟨k', v⟩, he, rfl⟩ := Option.map_eq_some_iff.1 hkey
  exact ⟨v, he⟩

/-- No key stands at two positions. -/
theorem Placed.nodup (h : t.Placed) : t.keys.Nodup := by
  rw [List.nodup_iff_getElem?_ne_getElem?]
  intro p q hpq hq heq
  have hk : t.keys[q]? = some t.keys[q] := List.getElem?_eq_getElem hq
  have hp := (h _ p).2 (heq.trans hk)
  rw [(h _ q).2 hk] at hp
  exact Nat.ne_of_gt hpq (Option.some.inj hp)

theorem Placed.positions_eq_none_iff (h : t.Placed) : t.positions[k]? = none ↔ k ∉ t.keys := by
  constructor
  · intro hk hmem
    obtain ⟨p, hp⟩ := List.mem_iff_getElem?.1 hmem
    rw [(h k p).2 hp] at hk
    cases hk
  · intro hk
    cases hp : t.positions[k]? with
    | none => rfl
    | some p => exact absurd (List.mem_of_getElem? ((h k p).1 hp)) hk

/-- A write under a key that is there changes the entry at its position. -/
theorem toList_set_of_some (h : t.positions[k]? = some p) (v : α) :
    (t.set k v).toList = t.toList.set p (k, v) := by
  rw [set_of_some h]
  exact Array.toList_setIfInBounds

theorem Placed.keys_set_of_some (h : t.Placed) (hk : t.positions[k]? = some p) (v : α) :
    (t.set k v).keys = t.keys := by
  obtain ⟨hlt, hget⟩ := List.getElem?_eq_some_iff.1 ((h k p).1 hk)
  rw [keys, toList_set_of_some hk, List.map_set]
  show t.keys.set p k = t.keys
  rw [← hget, List.set_getElem_self]

theorem keys_set_of_none (hk : t.positions[k]? = none) (v : α) :
    (t.set k v).keys = t.keys ++ [k] := by
  rw [keys, toList_set_of_none hk, List.map_append]
  rfl

/-- **A write keeps the positions of the keys.** -/
theorem Placed.set (h : t.Placed) (k : Key) (v : α) : (t.set k v).Placed := by
  intro k' p'
  cases hk : t.positions[k]? with
  | some p =>
      rw [h.keys_set_of_some hk, set_of_some hk]
      exact h k' p'
  | none =>
      rw [getElem?_keys, set_of_none hk]
      dsimp only
      rw [Std.HashMap.getElem?_insert, Array.getElem?_push]
      by_cases heq : k = k'
      · subst heq
        rw [if_pos (beq_self_eq_true k)]
        by_cases hp' : p' = t.entries.size
        · simp [hp']
        · have hnone : t.keys[p']? ≠ some k := by
            intro hkey
            rw [(h k p').2 hkey] at hk
            cases hk
          rw [if_neg hp', ← getElem?_keys]
          exact iff_of_false (fun he => hp' (Option.some.inj he).symm) hnone
      · rw [if_neg (by simpa using heq), h k' p']
        by_cases hp' : p' = t.entries.size
        · have hnone : t.keys[p']? = none := by
            rw [getElem?_keys, hp', Array.getElem?_eq_none (Nat.le_refl _)]
            rfl
          rw [if_pos hp', hnone]
          exact iff_of_false nofun (fun he => heq (Option.some.inj he))
        · rw [if_neg hp', ← getElem?_keys]

end Table

/-! ## 4. Writes and their history -/

/-- A write to a table, under the next index or under a key. -/
inductive Write (α : Type)
  | push (v : α)
  | set (k : Key) (v : α)

namespace Write

variable {α : Type}

/-- The table behind a write. -/
def perform (t : Table α) : Write α → Table α
  | .push v => t.push v
  | .set k v => t.set k v

/-- What is written, and under which key, behind what was written before. -/
def entry (past : List (Key × α)) : Write α → Key × α
  | .push v => (.index (Key.nextBehind (past.map Prod.fst)), v)
  | .set k v => (k, v)

/-- Everything that was written, with its keys, the first write first. -/
def history (ws : List (Write α)) : List (Key × α) :=
  ws.foldl (fun past w => past ++ [w.entry past]) []

theorem history_concat (ws : List (Write α)) (w : Write α) :
    history (ws ++ [w]) = history ws ++ [w.entry (history ws)] := List.foldl_concat ..

end Write

namespace Table

variable {α : Type} {t : Table α} {past : List (Key × α)}

/-- The table that was made without entries, and then written to. -/
def written (keyed : Bool) (ws : List (Write α)) : Table α :=
  ws.foldl Write.perform (if keyed then associative else empty)

theorem written_concat (keyed : Bool) (ws : List (Write α)) (w : Write α) :
    written keyed (ws ++ [w]) = w.perform (written keyed ws) := List.foldl_concat ..

/-- The table has the keys of the history in the order in which each was written first, finds their
    positions, reads under each key what was written last under it, and knows the next index. -/
structure Follows (t : Table α) (past : List (Key × α)) : Prop where
  placed : t.Placed
  order : t.keys = (past.map Prod.fst).eraseDups
  value : ∀ k, t.get? k = past.reverse.lookup k
  next : t.nextIndex = Key.nextBehind (past.map Prod.fst)

theorem Follows.mem_keys_iff (h : t.Follows past) : k ∈ t.keys ↔ k ∈ past.map Prod.fst := by
  rw [h.order, List.mem_eraseDups]

/-- **A write under a key is the last one of the history.** -/
theorem Follows.set (h : t.Follows past) (k : Key) (v : α) :
    (t.set k v).Follows (past ++ [(k, v)]) := by
  refine ⟨h.placed.set k v, ?_, fun k' => ?_, ?_⟩
  · rw [List.map_append, List.map_singleton, List.eraseDups_append, ← h.order]
    cases hk : t.positions[k]? with
    | some p =>
        have hmem := h.mem_keys_iff.1 (List.mem_of_getElem? ((h.placed k p).1 hk))
        have hnothing : [k].removeAll (past.map Prod.fst) = [] := by simpa [List.removeAll] using hmem
        rw [h.placed.keys_set_of_some hk, hnothing, List.eraseDups_nil, List.append_nil]
    | none =>
        have hnew := mt h.mem_keys_iff.2 (h.placed.positions_eq_none_iff.1 hk)
        have hsingle : [k].removeAll (past.map Prod.fst) = [k] := by
          simpa [List.removeAll] using hnew
        rw [keys_set_of_none hk, hsingle]
        rfl
  · rw [List.reverse_append, List.reverse_singleton, List.singleton_append]
    by_cases heq : k = k'
    · subst heq
      rw [h.placed.indexed.get?_set_self, List.lookup_cons_self]
    · have hne : (k' == k) = false := by simpa using Ne.symm heq
      rw [h.placed.indexed.get?_set_of_ne heq, h.value, List.lookup_cons, hne]
  · rw [nextIndex_set, h.next, nextAfter_nextBehind, List.map_append]
    rfl

theorem follows_of_empty (keyed : Bool) : (⟨#[], ∅, 0, keyed⟩ : Table α).Follows [] := by
  refine ⟨placed_of_empty keyed, rfl, fun k => ?_, rfl⟩
  show ((∅ : Std.HashMap Key Nat)[k]?.bind _ : Option α) = none
  rw [Std.HashMap.getElem?_empty]
  rfl

/-- A write of either kind writes its entry. -/
theorem Follows.perform_eq (h : t.Follows past) (w : Write α) :
    w.perform t = t.set (w.entry past).1 (w.entry past).2 := by
  cases w with
  | push v =>
      show t.set (.index t.nextIndex) v = _
      rw [h.next]
      rfl
  | set k v => rfl

/-- **A table follows what was written to it.** -/
theorem follows_written (keyed : Bool) (ws : List (Write α)) :
    (written keyed ws).Follows (Write.history ws) := by
  induction ws using List.reverseRecOn with
  | nil =>
      cases keyed with
      | false => exact follows_of_empty false
      | true => exact follows_of_empty true
  | append_singleton ws w ih =>
      rw [written_concat, Write.history_concat, ih.perform_eq]
      exact ih.set _ _

theorem keyed_written (keyed : Bool) (ws : List (Write α)) : (written keyed ws).keyed = keyed := by
  induction ws using List.reverseRecOn with
  | nil => cases keyed <;> rfl
  | append_singleton ws w ih =>
      rw [written_concat, (follows_written keyed ws).perform_eq, keyed_set, ih]

/-! ## 5. The table of a history -/

/-- **What a table is to its history.** Its keys are different, and stand in the order in which each was
    written first; the positions that are noted are theirs. Under each key is read what was written last
    under it, or nothing. A write under a key that is there takes the place of its entry, and every other
    write adds an entry at the end. The next index is the one behind all keys. And the keys need not be
    shown exactly if the table was not made to show them and they are the indexes from zero on, in
    order. -/
structure Records (t : Table α) (keyed : Bool) (past : List (Key × α)) : Prop where
  nodup : t.keys.Nodup
  order : t.keys = (past.map Prod.fst).eraseDups
  placed : ∀ (k : Key) (p : Nat), t.positions[k]? = some p ↔ t.keys[p]? = some k
  value : ∀ k, t.get? k = past.reverse.lookup k
  overwrites : ∀ (w : Write α) (p : Nat), t.keys[p]? = some (w.entry past).1 →
    (w.perform t).toList = t.toList.set p (w.entry past)
  adds : ∀ w : Write α, (w.entry past).1 ∉ t.keys →
    (w.perform t).toList = t.toList ++ [w.entry past]
  next : t.nextIndex = Key.nextBehind (past.map Prod.fst)
  shown : t.isAssociative = false ↔
    keyed = false ∧ t.keys = (List.range t.size).map fun i => Key.index (Int64.ofNat i)

theorem isAssociative_eq_false_iff (t : Table α) :
    t.isAssociative = false ↔ t.keyed = false ∧
      t.keys = (List.range t.size).map fun i => Key.index (Int64.ofNat i) := by
  have hcount := countsFrom_iff 0 t.toList
  simp only [Nat.zero_add] at hcount
  rw [isAssociative, Bool.or_eq_false_iff, Bool.not_eq_false', hcount, ← length_keys, keys,
    List.length_map]

/-- **A table is the ordered map of what was written to it**, however it was made and whatever was
    written. -/
theorem written_records (keyed : Bool) (ws : List (Write α)) :
    (written keyed ws).Records keyed (Write.history ws) := by
  have h := follows_written keyed ws
  refine ⟨h.placed.nodup, h.order, h.placed, h.value, fun w p hp => ?_, fun w hnew => ?_, h.next, ?_⟩
  · rw [h.perform_eq, toList_set_of_some ((h.placed _ p).2 hp)]
  · rw [h.perform_eq, toList_set_of_none (h.placed.positions_eq_none_iff.2 hnew)]
  · rw [isAssociative_eq_false_iff, keyed_written]

example : (written false [.set (.index 5) 'a', .push 'b', .set (.index 5) 'c']).toList =
    [(.index 5, 'c'), (.index 6, 'b')] := by
  cbv

/-! ## 6. Pushes -/

/-- The second table has the entries of the first one, and behind them the value under an index that is
    none of their keys. -/
def Appends (t : Table α) (v : α) (t' : Table α) : Prop :=
  ∃ i : Int64, Key.index i ∉ t.keys ∧ t'.toList = t.toList ++ [(.index i, v)]

/-- Where the largest integer is no key, the next index is no key either, and a push adds its entry. -/
theorem Follows.push_behind (h : t.Follows past) (hlast : Key.index Int64.maxValue ∉ t.keys) (v : α) :
    t.Appends v (t.push v) := by
  have hnew : Key.index t.nextIndex ∉ t.keys := by
    intro hmem
    have heq : t.nextIndex = Int64.maxValue := by
      rw [h.mem_keys_iff, h.next] at hmem
      rw [h.next]
      exact Key.eq_last_of_nextBehind_mem hmem
    exact hlast (heq ▸ hmem)
  exact ⟨t.nextIndex, hnew, toList_set_of_none (h.placed.positions_eq_none_iff.2 hnew) v⟩

/-- Where the largest integer is a key, a push writes over its entry. -/
theorem Follows.push_over (h : t.Follows past) {p : Nat}
    (hp : t.keys[p]? = some (.index Int64.maxValue)) (v : α) :
    (t.push v).toList = t.toList.set p (.index Int64.maxValue, v) := by
  have hmem := h.mem_keys_iff.1 (List.mem_of_getElem? hp)
  have hnext : t.nextIndex = Int64.maxValue := h.next.trans (Key.nextBehind_eq_last hmem)
  rw [push, hnext, toList_set_of_some ((h.placed _ p).2 hp)]

/-- Then it adds none. -/
theorem Follows.not_appends (h : t.Follows past) (hlast : Key.index Int64.maxValue ∈ t.keys) (v : α) :
    ¬ t.Appends v (t.push v) := by
  rintro ⟨i, -, hadded⟩
  obtain ⟨p, hp⟩ := List.mem_iff_getElem?.1 hlast
  have hlength := congrArg List.length hadded
  rw [h.push_over hp, List.length_set, List.length_append] at hlength
  exact absurd hlength (Nat.ne_of_lt (Nat.lt_succ_self _))

/-- **A push adds an entry exactly if nothing was written under the largest integer.** Otherwise it writes
    over what is there: no entry is added, and the value that was there is lost. -/
theorem push_appends_iff (keyed : Bool) (ws : List (Write α)) (v : α) :
    ((written keyed ws).Appends v ((written keyed ws).push v) ↔
      Key.index Int64.maxValue ∉ (written keyed ws).keys) ∧
    ∀ p : Nat, (written keyed ws).keys[p]? = some (.index Int64.maxValue) →
      ((written keyed ws).push v).toList =
        (written keyed ws).toList.set p (.index Int64.maxValue, v) := by
  have h := follows_written keyed ws
  refine ⟨⟨fun hadded hlast => ?_, fun hlast => h.push_behind hlast v⟩, fun p hp => h.push_over hp v⟩
  exact h.not_appends hlast v hadded

/-- A push behind the largest integer writes over the value that is there. -/
theorem push_overwrites :
    ¬ (written false [.set (.index Int64.maxValue) (Value.string "max")]).Appends (.string "again")
      ((written false [.set (.index Int64.maxValue) (Value.string "max")]).push (.string "again")) := by
  have h := follows_written false [.set (.index Int64.maxValue) (Value.string "max")]
  have hkeys : (written false [.set (.index Int64.maxValue) (Value.string "max")]).keys =
      [.index Int64.maxValue] := h.order
  exact h.not_appends (hkeys ▸ List.mem_singleton_self _) (.string "again")

end Table

end CallScript
