import CallScript.Proofs.Node.Moves
import CallScript.Proofs.Registry.Lookup

/-!
# Functions do not look at places

The place of a call serves a function for two things: an exception is raised at it, and a replacement
of the call is put there. The places of arguments are only handed on. So if places are moved before a
function is asked for anything, its answer is the same, moved (`Function.IgnoresPlaces`).

`ignoresPlaces_standard`: this is true of all functions of the language.
-/

namespace CallScript

/-- The exception at the image of its place. -/
def Exception.move (σ : Place → Place) (e : Exception) : Exception := ⟨e.fault, σ e.place⟩

namespace Function

/-- **What the function does with a call moves along with the places** of the call and its arguments. -/
structure IgnoresPlaces (f : Function) : Prop where
  validate : ∀ σ args p, f.validate args (σ p) = mapBoth (Exception.move σ) id (f.validate args p)
  execute : ∀ σ args p w, f.execute args (σ p) w =
    (mapBoth (Exception.move σ) id (f.execute args p w).1, (f.execute args p w).2)
  rewrite : ∀ σ args p, f.rewrite (args.map (Node.move σ)) (σ p) =
    mapBoth (Exception.move σ) (Option.map (Node.move σ)) (f.rewrite args p)

variable {σ : Place → Place} {args : List Node} {p : Place}

/-! ## 1. Functions that only compute -/

/-- A fault is raised at the place of the call. -/
theorem raiseAt_move {α β : Type} {k : α → β} (x : Except Fault α) :
    raiseAt (σ p) (x.map k) = mapBoth (Exception.move σ) k (raiseAt p x) := by
  cases x <;> rfl

theorem raiseAt_move_id {α : Type} (x : Except Fault α) :
    raiseAt (σ p) x = mapBoth (Exception.move σ) id (raiseAt p x) := by
  cases x <;> rfl

/-- A function that computes ignores places if its replacements move along with them. -/
theorem ignoresPlaces_ofPure {d : Description} {compute : List Value → Except Fault Value}
    {check : List Value → Except Fault Unit}
    {replace : List Node → Place → Except Fault (Option Node)}
    (h : ∀ σ args p, replace (args.map (Node.move σ)) (σ p) =
      (replace args p).map (Option.map (Node.move σ))) :
    (ofPure d compute check replace).IgnoresPlaces := by
  refine ⟨fun σ args p => raiseAt_move_id _, fun σ args p w => ?_, fun σ args p => ?_⟩
  · exact congrArg (·, w) (raiseAt_move_id _)
  · show raiseAt (σ p) (replace (args.map _) (σ p)) = _
    rw [h]
    exact raiseAt_move _

/-! ## 2. Replacements -/

theorem literalPattern?_move : literalPattern? (args.map (Node.move σ)) = literalPattern? args := by
  cases args with
  | nil => rfl
  | cons n ns =>
      unfold literalPattern?
      rw [List.map_cons, List.head?_cons, List.head?_cons, Option.bind_some, Option.bind_some,
        Node.literal?_move]

theorem plainPattern?_move (n : Node) : plainPattern? (n.move σ) = plainPattern? n := by
  unfold plainPattern?
  rw [Node.text?_move]

theorem checkLiteralPattern_move :
    checkLiteralPattern (args.map (Node.move σ)) (σ p) =
      (checkLiteralPattern args p).map (Option.map (Node.move σ)) := by
  unfold checkLiteralPattern
  rw [literalPattern?_move]
  cases literalPattern? args <;> rfl

/-- **The split that stands for a split at a plain pattern** moves along with it. -/
theorem splitRewrite_move :
    splitRewrite (args.map (Node.move σ)) (σ p) =
      (splitRewrite args p).map (Option.map (Node.move σ)) := by
  unfold splitRewrite
  rw [literalPattern?_move]
  cases literalPattern? args with
  | error fault => rfl
  | ok m? =>
      cases m? with
      | none => rfl
      | some q =>
          cases args with
          | nil => rfl
          | cons pattern rest =>
              simp only [List.map_cons, bind, Except.bind, plainPattern?_move, Node.place_move]
              cases plainPattern? pattern with
              | none => rfl
              | some plain =>
                  refine congrArg (fun n => Except.ok (some n)) ?_
                  exact (Node.move_call σ "split" p (.literal _ _ :: rest) none).symm

/-- **The replacement that stands for one of a plain pattern** moves along with it. -/
theorem replaceRewrite_move :
    replaceRewrite (args.map (Node.move σ)) (σ p) =
      (replaceRewrite args p).map (Option.map (Node.move σ)) := by
  have htext : (args.map (Node.move σ))[1]?.bind Node.text? = args[1]?.bind Node.text? := by
    rw [List.getElem?_map, Option.bind_map]
    exact congrArg (args[1]?.bind ·) (funext fun n => Node.text?_move σ n)
  unfold replaceRewrite
  rw [literalPattern?_move, htext]
  cases literalPattern? args with
  | error fault => rfl
  | ok m? =>
      simp only [bind, Except.bind]
      split
      · next q text _ =>
        cases replacementOf text q with
        | error fault => rfl
        | ok r =>
            match args with
            | [] => rfl
            | [_] => rfl
            | [_, _] => rfl
            | _ :: _ :: _ :: _ :: _ => rfl
            | [pattern, replacement, subject] =>
                simp only [List.map_cons, List.map_nil, plainPattern?_move, Node.place_move]
                cases plainPattern? pattern with
                | none => rfl
                | some plain =>
                    dsimp only
                    cases Pattern.Replacement.forPlainText text plain <;> rfl
      · rfl

/-! ## 3. The functions of the language -/

theorem ignoresPlaces_noRewrite (d : Description) (compute : List Value → Except Fault Value)
    (check : List Value → Except Fault Unit) : (ofPure d compute check noRewrite).IgnoresPlaces :=
  ignoresPlaces_ofPure fun _ _ _ => rfl

theorem ignoresPlaces_checkLiteralPattern (d : Description)
    (compute : List Value → Except Fault Value) (check : List Value → Except Fault Unit) :
    (ofPure d compute check checkLiteralPattern).IgnoresPlaces :=
  ignoresPlaces_ofPure fun _ _ _ => checkLiteralPattern_move

theorem ignoresPlaces_of_mem_builtins {f : Function} (hf : f ∈ Registry.builtins) :
    f.IgnoresPlaces := by
  simp only [Registry.builtins, List.mem_cons, List.not_mem_nil, or_false] at hf
  rcases hf with rfl | rfl | rfl | rfl | rfl | rfl | rfl | rfl | rfl | rfl | rfl
  · exact ignoresPlaces_noRewrite _ _ _
  · exact ignoresPlaces_noRewrite _ _ _
  · exact ignoresPlaces_noRewrite _ _ _
  · exact ignoresPlaces_noRewrite _ _ _
  · exact ⟨fun _ _ _ => rfl, fun _ _ _ _ => rfl, fun _ _ _ => rfl⟩
  · exact ignoresPlaces_checkLiteralPattern _ _ _
  · exact ignoresPlaces_checkLiteralPattern _ _ _
  · exact ignoresPlaces_ofPure fun _ _ _ => replaceRewrite_move
  · exact ignoresPlaces_ofPure fun _ _ _ => splitRewrite_move
  · exact ignoresPlaces_checkLiteralPattern _ _ _
  · exact ignoresPlaces_noRewrite _ _ _

end Function

/-- No function of the registry looks at places. -/
def Registry.IgnoresPlaces (r : Registry) : Prop :=
  ∀ name f, r.get? name = some f → f.IgnoresPlaces

/-- **No function of the language looks at places.** -/
theorem Registry.ignoresPlaces_standard : Registry.standard.IgnoresPlaces :=
  forall_standard fun _ hf => Function.ignoresPlaces_of_mem_builtins hf

end CallScript
