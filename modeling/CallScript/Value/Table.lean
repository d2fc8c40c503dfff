import Std.Data.HashMap
import CallScript.Value.Key

/-!
# Insertion-ordered tables

A table keeps its entries in the order in which their keys were first written, and finds an entry
by its key without a search. Writing to a key that is there changes the value in its place.

* `Table.set` writes under a key, `Table.push` under the next index;
* `Table.get?` reads;
* `Table.isAssociative` tells whether the keys have to be shown: the table was made that way, or its
  keys are not the indexes from zero in order.

The next index is one past the largest index written so far. At the largest integer it stays.
-/

namespace CallScript

/-- Entries by key, in the order of their first writing. -/
structure Table (α : Type) where
  entries : Array (Key × α)
  positions : Std.HashMap Key Nat
  nextIndex : Int64
  keyed : Bool

namespace Table

variable {α : Type}

/-- A table without entries. -/
def empty : Table α := ⟨#[], ∅, 0, false⟩

/-- A table without entries that always shows its keys. -/
def associative : Table α := ⟨#[], ∅, 0, true⟩

/-- The integer after this one, or this one if there is none. -/
def succ (i : Int64) : Int64 := if i = Int64.maxValue then i else i + 1

/-- The next index after a write under the key. -/
def nextAfter (next : Int64) : Key → Int64
  | .index i => if next ≤ i then succ i else next
  | .name _ => next

/-- Writes a value under a key. -/
def set : Table α → Key → α → Table α
  | ⟨entries, positions, next, keyed⟩, k, v =>
    match positions[k]? with
    | some p => ⟨entries.setIfInBounds p (k, v), positions, nextAfter next k, keyed⟩
    | none =>
      let p := entries.size
      ⟨entries.push (k, v), positions.insert k p, nextAfter next k, keyed⟩

/-- Writes a value under the next index. -/
def push (t : Table α) (v : α) : Table α := t.set (.index t.nextIndex) v

/-- The value under a key. -/
def get? (t : Table α) (k : Key) : Option α :=
  t.positions[k]?.bind fun p => t.entries[p]?.map Prod.snd

/-- The key has been written. -/
def contains (t : Table α) (k : Key) : Bool := t.positions.contains k

/-- The number of entries. -/
def size (t : Table α) : Nat := t.entries.size

/-- The entries in order. -/
def toList (t : Table α) : List (Key × α) := t.entries.toList

/-- The values in order. -/
def values (t : Table α) : List α := t.toList.map Prod.snd

/-- The keys are the indexes from `i` on, in order. -/
def countsFrom (i : Nat) : List (Key × α) → Bool
  | [] => true
  | e :: r => e.1 = .index (Int64.ofNat i) && countsFrom (i + 1) r

/-- The keys of the table have to be shown. -/
def isAssociative (t : Table α) : Bool := t.keyed || !countsFrom 0 t.toList

/-- The table of a list of values, each under the next index. -/
def ofList (vs : List α) : Table α := vs.foldl push empty

end Table

end CallScript
