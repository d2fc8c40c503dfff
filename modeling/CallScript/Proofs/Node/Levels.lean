import CallScript.Node

/-!
# Properties of every node of a tree

A property of nodes that may depend on the level (`Node.Every`) is carried down a tree: the root is
at the level that is given, and the arguments of a call are one level deeper than the call.

* `Every.imp` weakens the property;
* `every_within_iff`: no node lies deeper than the limit exactly when the depth of the tree fits;
* `Node.Unkeyed` says that no call of a tree has a memo key;
* `every_iff_parts`: a property that does not depend on the level is one of all its parts (`Node.parts`).
-/

namespace CallScript.Node

/-! ## 1. Going through a tree -/

mutual

/-- Every node has the property at its level; the root is at level `d`. -/
def Every (P : Nat → Node → Prop) (d : Nat) : Node → Prop
  | .literal v p => P d (.literal v p)
  | .call name p args memo => P d (.call name p args memo) ∧ EveryIn P (d + 1) args

/-- Every node of each tree of a list has the property; the roots are at level `d`. -/
def EveryIn (P : Nat → Node → Prop) (d : Nat) : List Node → Prop
  | [] => True
  | n :: ns => Every P d n ∧ EveryIn P d ns

end

section

variable {P Q : Nat → Node → Prop}

/-- The root has the property. -/
theorem Every.root {d : Nat} {n : Node} (h : Every P d n) : P d n := by
  cases n with
  | literal v p => exact h
  | call name p args memo => exact h.1

mutual

/-- What follows from a property of a node, at any level, holds where the property does. -/
theorem Every.imp (hQ : ∀ d n, P d n → Q d n) :
    ∀ {n : Node} {d : Nat}, Every P d n → Every Q d n
  | .literal _ _, _, h => hQ _ _ h
  | .call _ _ _ _, _, h => ⟨hQ _ _ h.1, EveryIn.imp hQ h.2⟩

theorem EveryIn.imp (hQ : ∀ d n, P d n → Q d n) :
    ∀ {ns : List Node} {d : Nat}, EveryIn P d ns → EveryIn Q d ns
  | [], _, _ => trivial
  | _ :: _, _, h => ⟨Every.imp hQ h.1, EveryIn.imp hQ h.2⟩

end

mutual

/-- A property that every node has, at any level, is had by every node of a tree. -/
theorem Every.of_forall (hP : ∀ d n, P d n) : ∀ {n : Node} {d : Nat}, Every P d n
  | .literal _ _, _ => hP _ _
  | .call _ _ _ _, _ => ⟨hP _ _, EveryIn.of_forall hP⟩

theorem EveryIn.of_forall (hP : ∀ d n, P d n) : ∀ {ns : List Node} {d : Nat}, EveryIn P d ns
  | [], _ => trivial
  | _ :: _, _ => ⟨Every.of_forall hP, EveryIn.of_forall hP⟩

end

theorem everyIn_iff {d : Nat} {ns : List Node} : EveryIn P d ns ↔ ∀ n ∈ ns, Every P d n := by
  induction ns with
  | nil => exact ⟨nofun, fun _ => trivial⟩
  | cons n ns ih => exact (and_congr_right fun _ => ih).trans List.forall_mem_cons.symm

end

/-! ## 2. Levels and depth -/

/-- The level is within the limit. -/
def Within (limit : Nat) (d : Nat) (_ : Node) : Prop := d ≤ limit

theorem one_le_depth (n : Node) : 1 ≤ n.depth := by
  cases n with
  | literal v p => exact Nat.le_refl 1
  | call name p args memo => exact Nat.le_add_left 1 _

mutual

/-- **No node lies deeper than the limit exactly when the tree fits below it.** -/
theorem every_within_iff {limit : Nat} :
    ∀ (n : Node) {d : Nat}, Every (Within limit) d n ↔ d + n.depth ≤ limit + 1
  | .literal _ _, d => by
      show d ≤ limit ↔ d + 1 ≤ limit + 1
      omega
  | .call _ _ args _, d => by
      show d ≤ limit ∧ EveryIn (Within limit) (d + 1) args ↔ d + (depthAll args + 1) ≤ limit + 1
      rw [everyIn_within_iff args]
      omega

/-- For a list, the levels that are left are compared; without trees there is nothing to fit. -/
theorem everyIn_within_iff {limit : Nat} :
    ∀ (ns : List Node) {d : Nat}, EveryIn (Within limit) d ns ↔ depthAll ns ≤ limit + 1 - d
  | [], d => by
      show True ↔ 0 ≤ limit + 1 - d
      simp
  | n :: ns, d => by
      have hn := one_le_depth n
      show Every (Within limit) d n ∧ EveryIn (Within limit) d ns ↔
        max n.depth (depthAll ns) ≤ limit + 1 - d
      rw [every_within_iff n, everyIn_within_iff ns]
      omega

end

/-! ## 3. Trees without memo keys -/

/-- No call of the tree has a memo key. -/
def Unkeyed (n : Node) : Prop := Every (fun _ m => m.memo? = none) 1 n

/-! ## 4. The nodes of a tree -/

mutual

/-- All nodes of the tree, the root first. -/
def parts : Node → List Node
  | .literal v p => [.literal v p]
  | .call name p args memo => .call name p args memo :: partsAll args

/-- All nodes of the trees. -/
def partsAll : List Node → List Node
  | [] => []
  | n :: ns => n.parts ++ partsAll ns

end

/-- The memo keys in the trees. -/
def keysAll (ns : List Node) : List MemoKey := (partsAll ns).filterMap memo?

@[simp] theorem partsAll_singleton (n : Node) : partsAll [n] = n.parts := List.append_nil _

theorem partsAll_append (ns ms : List Node) :
    partsAll (ns ++ ms) = partsAll ns ++ partsAll ms := by
  induction ns with
  | nil => rfl
  | cons n ns ih => simp only [List.cons_append, partsAll, ih, List.append_assoc]

theorem mem_partsAll {m : Node} {ns : List Node} : m ∈ partsAll ns ↔ ∃ n ∈ ns, m ∈ n.parts := by
  induction ns with
  | nil => exact ⟨nofun, fun ⟨_, hn, _⟩ => nomatch hn⟩
  | cons n ns ih => simp only [partsAll, List.mem_append, ih, List.mem_cons, exists_eq_or_imp]

theorem mem_keysAll {key : MemoKey} {ns : List Node} :
    key ∈ keysAll ns ↔ ∃ n ∈ partsAll ns, n.memo? = some key := List.mem_filterMap

section

variable {S : Node → Prop}

mutual

/-- Every node of the tree has the property exactly when all its parts have it. -/
theorem every_iff_parts : ∀ {n : Node} {d : Nat},
    n.Every (fun _ => S) d ↔ ∀ m ∈ n.parts, S m
  | .literal v p, _ => by
      show S (.literal v p) ↔ ∀ m ∈ [.literal v p], S m
      exact List.forall_mem_singleton.symm
  | .call _ _ _ _, _ => (and_congr_right fun _ => everyIn_iff_parts).trans List.forall_mem_cons.symm

theorem everyIn_iff_parts : ∀ {ns : List Node} {d : Nat},
    EveryIn (fun _ => S) d ns ↔ ∀ m ∈ partsAll ns, S m
  | [], _ => ⟨fun _ => nofun, fun _ => trivial⟩
  | _ :: _, _ => (and_congr every_iff_parts everyIn_iff_parts).trans List.forall_mem_append.symm

end

/-- Every node of the program has the property exactly when all its parts have it. -/
theorem forall_every_iff_parts {p : Program} :
    (∀ n ∈ p, n.Every (fun _ => S) 1) ↔ ∀ m ∈ partsAll p, S m :=
  everyIn_iff.symm.trans everyIn_iff_parts

end

/-- A program of trees without memo keys has no memo keys. -/
theorem not_mem_keysAll {p : Program} (hp : ∀ n ∈ p, n.Unkeyed) (key : MemoKey) :
    key ∉ keysAll p := by
  intro hkey
  obtain ⟨n, hn, hkey⟩ := mem_keysAll.1 hkey
  rw [forall_every_iff_parts.1 hp n hn] at hkey
  cases hkey

end CallScript.Node
