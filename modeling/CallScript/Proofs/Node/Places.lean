import Mathlib.Data.List.Perm.Subperm
import CallScript.Proofs.Node.Grammar
import CallScript.Proofs.Token.Places

/-!
# Places of nodes

Every node of a program that was read stands at the place of a token of its own: a literal and a call
at their first token, an index at its bracket. So no two nodes stand at the same place
(`distinctPlaces_of_parse`), and a place tells which node of a program a failure is about.
-/

namespace CallScript

namespace Node

mutual

/-- The places of a node and of the nodes below it. -/
def places : Node → List Place
  | .literal _ p => [p]
  | .call _ p args _ => p :: placesAll args

def placesAll : List Node → List Place
  | [] => []
  | n :: ns => n.places ++ placesAll ns

end

/-- No two nodes of the program stand at the same place. -/
def DistinctPlaces (p : Program) : Prop := (placesAll p).Nodup

theorem placesAll_append (ns ms : List Node) : placesAll (ns ++ ms) = placesAll ns ++ placesAll ms := by
  induction ns with
  | nil => rfl
  | cons n ns ih => rw [List.cons_append, placesAll, placesAll, ih, List.append_assoc]

end Node

namespace Written

open Node

mutual

/-- **The nodes of an expression stand at places of its tokens**, each at one of its own. -/
theorem Spells.places : ∀ {e : Written} {ts : List Token}, Spells e ts →
    e.node.places.Subperm (ts.map Token.place)
  | _, _, .string _ _ => .refl _
  | _, _, .integer _ _ _ _ => .refl _
  | _, _, .null _ => .refl _
  | .group e, _, @Spells.group _ ts p q h => by
      have hin := Spells.places h
      have hout : (ts.map Token.place).Sublist (p :: (ts.map Token.place ++ [q])) :=
        (List.sublist_append_left _ [q]).cons p
      rw [List.map_cons, List.map_append, node]
      exact hin.trans hout.subperm
  | _, _, .callEmpty name p q q' => (List.nil_sublist [q, q']).cons_cons p |>.subperm
  | _, _, @Spells.call es e us ts name p q q' hs h => by
      have hall := (SpellsBefore.places hs).append (Spells.places h)
      have hout : (us.map Token.place ++ ts.map Token.place).Sublist
          (q :: (us.map Token.place ++ (ts.map Token.place ++ [q']))) := by
        rw [← List.append_assoc]
        exact (List.sublist_append_left _ [q']).cons q
      rw [node, Node.places, nodes_append, placesAll_append]
      simp only [List.map_cons, List.map_append]
      refine (List.subperm_cons p).2 ?_
      have hlast : placesAll (nodes [e]) = e.node.places := List.append_nil _
      rw [hlast]
      exact hall.trans hout.subperm
  | _, _, @Spells.index s i ts us p q hs hi => by
      have hall := (Spells.places hs).append (Spells.places hi)
      have hout : (ts.map Token.place ++ us.map Token.place).Sublist
          (ts.map Token.place ++ (us.map Token.place ++ [q])) :=
        (List.sublist_append_left _ [q]).append_left _
      have hplaces : (Written.index s p i).node.places =
          p :: (s.node.places ++ i.node.places) := by
        rw [node, Node.places, placesAll, placesAll, placesAll, List.append_nil]
      rw [hplaces, List.map_append, List.map_cons, List.map_append]
      exact ((List.subperm_cons p).2 (hall.trans hout.subperm)).trans List.perm_middle.symm.subperm

theorem SpellsBefore.places : ∀ {es : List Written} {us : List Token}, SpellsBefore es us →
    (placesAll (nodes es)).Subperm (us.map Token.place)
  | _, _, .nil => .refl _
  | _, _, @SpellsBefore.snoc es e us ts q hs h => by
      have hall := (SpellsBefore.places hs).append (Spells.places h)
      have hout : (us.map Token.place ++ ts.map Token.place).Sublist
          (us.map Token.place ++ (ts.map Token.place ++ [q])) :=
        (List.sublist_append_left _ [q]).append_left _
      have hlast : placesAll (nodes [e]) = e.node.places := List.append_nil _
      rw [nodes_append, placesAll_append, hlast, List.map_append, List.map_append]
      exact hall.trans hout.subperm

end

/-- So do the nodes of a program. -/
theorem SpellsProgram.places {es : List Written} {ts : List Token} (h : SpellsProgram es ts) :
    (placesAll (nodes es)).Subperm (ts.map Token.place) := by
  induction h with
  | stop _ => exact List.nil_subperm
  | skip p _ ih => exact ih.cons_right p
  | @last e ts us h _ =>
      rw [List.map_append]
      exact h.places.append List.nil_subperm
  | @next e es ts us p h _ ih =>
      rw [List.map_append, List.map_cons]
      exact h.places.append (ih.cons_right p)

end Written

namespace Node

/-- **No two nodes of a program that was read stand at the same place**, if no two of its tokens do. -/
theorem distinctPlaces_of_parse {limit : Nat} {ts : List Token} {program : Program}
    (h : parse limit ts = .ok program) (ht : (ts.map Token.place).Nodup) :
    DistinctPlaces program := by
  obtain ⟨es, hes, rfl, -⟩ := spellsProgram_of_parse h
  obtain ⟨places, hperm, hsublist⟩ := hes.places
  exact hperm.nodup_iff.1 (ht.sublist hsublist)

end Node

end CallScript
