import CallScript.Proofs.Function.Rewrite
import CallScript.Proofs.Node.Places
import CallScript.Proofs.Optimizer.Derivation

/-!
# Places of nodes of an optimized program

An optimized program has its places from the program that it came from, if calls are replaced by
expressions that have their places from them (`Registry.KeepsPlaces`), as the calls of the standard
registry are. So no two of its nodes stand at the same place either (`distinctPlaces_of_optimize`).
-/

namespace CallScript

open Node

/-- A replacement stands at places of the call that it replaces, with each node at one of its own. -/
def Registry.KeepsPlaces (r : Registry) : Prop :=
  ∀ name f, r.get? name = some f → f.allows .rewritten = true →
    ∀ args p m, f.rewrite args p = .ok (some m) → m.places.Subperm (p :: placesAll args)

/-- **The standard registry keeps places.** -/
theorem Registry.keepsPlaces_standard : Registry.standard.KeepsPlaces := by
  intro name f hf _ args p m hm
  rcases Function.rewrite_eq_some (mem_builtins hf).1 hm with ⟨rfl, h⟩ | ⟨rfl, h⟩
  · obtain ⟨source, q, text, q', subject, plain, expanded, pattern, replacement, rfl, -, -, -, -, -,
      rfl⟩ := Function.replaceRewrite_eq_some h
    -- the subject comes first now
    refine (List.subperm_cons p).2 ?_
    show (subject.places ++ [q, q']).Subperm ([q, q'] ++ (subject.places ++ []))
    rw [List.append_nil]
    exact List.perm_append_comm.subperm
  · obtain ⟨source, q, rest, plain, pattern, rfl, -, -, -, rfl⟩ :=
      Function.splitRewrite_eq_some h
    exact .refl _

namespace Optimizer

variable {r : Registry} {o : Options}

mutual

/-- **What comes out of the optimizer stands at places of what went in.** -/
theorem Becomes.places (hr : r.KeepsPlaces) : ∀ {n n' : Node} {d : Nat}, Becomes r o d n n' →
    n'.places.Subperm n.places
  | _, _, _, .literal _ _ _ => .refl _
  | _, _, _, .call _ p _ _ hargs _ _ => (List.subperm_cons p).2 (hargs.places hr)
  | _, _, _, .replaced name p _ _ hargs hf _ hw hm h =>
      ((h.places hr).trans (hr name _ hf hw _ p _ hm)).trans
        ((List.subperm_cons p).2 (hargs.places hr))

theorem BecomeAll.places (hr : r.KeepsPlaces) : ∀ {ns ns' : List Node} {d : Nat},
    BecomeAll r o d ns ns' → (placesAll ns').Subperm (placesAll ns)
  | _, _, _, .nil _ => .refl _
  | _, _, _, .cons h hs => (h.places hr).append (hs.places hr)

end

/-- A statement that is left out takes its places with it. -/
theorem BecomesProgram.places (hr : r.KeepsPlaces) : ∀ {p p' : Program}, BecomesProgram r o p p' →
    (placesAll p').Subperm (placesAll p)
  | _, _, .nil => .refl _
  | _, _, .last h => (h.places hr).append (.refl _)
  | _, _, .keep h hs => (h.places hr).append (hs.places hr)
  | _, _, .drop (n := n) _ _ _ hs =>
      (hs.places hr).trans (List.sublist_append_right n.places _).subperm

/-- No two nodes of an optimized program stand at the same place, if no two nodes of the program did. -/
theorem distinctPlaces_of_optimize (hr : r.KeepsPlaces) {p p' : Program}
    (h : optimize r o p = .ok p') (hp : DistinctPlaces p) : DistinctPlaces p' := by
  obtain ⟨places, hperm, hsublist⟩ := (becomesProgram_optimize h).places hr
  exact hperm.nodup_iff.1 (hp.sublist hsublist)

end Optimizer

end CallScript
