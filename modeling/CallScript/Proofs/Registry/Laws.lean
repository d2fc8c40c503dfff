import CallScript.Proofs.Run.Keys

/-!
# What registries have to keep

A call may be replaced if nobody can tell and if there is an end to it (`Registry.Lawful`): the
replacement does what the call does, and it has fewer calls that can be replaced (`Node.rank`).

`lawful_standard`: the standard registry is lawful.
-/

namespace CallScript

/-! ## 1. Calls that can be replaced -/

/-- One for a name whose calls can be replaced. -/
def Registry.weight (r : Registry) (name : String) : Nat :=
  match r.get? name with
  | some f => if f.allows .rewritten then 1 else 0
  | none => 0

theorem Registry.weight_of_get? {r : Registry} {name : String} {f : Function}
    (hf : r.get? name = some f) : r.weight name = if f.allows .rewritten then 1 else 0 := by
  unfold weight
  rw [hf]

namespace Node

mutual

/-- The number of calls in a tree that can be replaced. -/
def rank (r : Registry) : Node → Nat
  | .literal _ _ => 0
  | .call name _ args _ => rankAll r args + r.weight name

def rankAll (r : Registry) : List Node → Nat
  | [] => 0
  | n :: ns => n.rank r + rankAll r ns

end

theorem weight_le_one (r : Registry) (name : String) : r.weight name ≤ 1 := by
  unfold Registry.weight
  split
  · split
    · exact Nat.le_refl 1
    · exact Nat.zero_le 1
  · exact Nat.zero_le 1

mutual

/-- There are no more calls to replace than there are nodes. -/
theorem rank_le_size (r : Registry) : ∀ n : Node, n.rank r ≤ n.size
  | .literal _ _ => Nat.zero_le 1
  | .call name _ args _ => Nat.add_le_add (rankAll_le_sizeAll r args) (weight_le_one r name)

theorem rankAll_le_sizeAll (r : Registry) : ∀ ns : List Node, rankAll r ns ≤ sizeAll ns
  | [] => Nat.le_refl 0
  | n :: ns => Nat.add_le_add (rank_le_size r n) (rankAll_le_sizeAll r ns)

end

end Node

/-! ## 2. The laws -/

open Run Node Evaluator

/-- **The expression may stand in the place of the call**: it is well keyed if the arguments are, it
    does what the call does, and it has fewer calls that can be replaced. -/
structure Registry.Replaces (r : Registry) (name : String) (p : Place) (args : List Node)
    (m : Node) : Prop where
  keyed : ∀ limit d, EveryIn (WellKeyed r limit) (d + 1) args → m.Every (WellKeyed r limit) d
  agrees : ∀ limit d, d ≤ limit → EveryIn (Within limit) (d + 1) args →
    EveryIn (WellKeyed r limit) (d + 1) args →
    Agrees r (evalCall r limit d name p args) (evalAt r limit d m)
  rank : m.rank r < rankAll r args + r.weight name

/-- The functions are lawful, and calls are replaced by what may stand in their place. -/
structure Registry.Lawful (r : Registry) : Prop where
  functions : r.AllLawful
  replaces : ∀ name f, r.get? name = some f → f.allows .rewritten = true →
    ∀ args p m, f.arity.accepts args.length = true → f.rewrite args p = .ok (some m) →
      r.Replaces name p args m

/-! ## 3. The standard registry -/

namespace Registry

/-- A replacement becomes the one of plain text. -/
theorem replaces_regReplace {args : List Node} {p : Place} {m : Node}
    (h : Function.replaceRewrite args p = .ok (some m)) :
    standard.Replaces "reg_replace" p args m := by
  obtain ⟨source, q, text, q', subject, plain, expanded, pattern, replacement, rfl, hs, hne, hp, hr,
    he, rfl⟩ := Function.replaceRewrite_eq_some h
  refine ⟨fun limit d hkey => ?_, fun limit d hd hwithin hkey => ?_, ?_⟩
  · exact ⟨wellKeyed_of_memo?_eq_none rfl, hkey.2.2.1, wellKeyed_of_memo?_eq_none rfl,
      wellKeyed_of_memo?_eq_none rfl, trivial⟩
  · have hlit : ∀ (v : Literal) (q : Place),
        evalAt standard limit (d + 1) (.literal v q) = pure v.toValue :=
      fun v q => evalAt_literal hwithin.1
    have hcall : evalCall standard limit d "reg_replace" p
        [.literal (.string source) q, .literal (.string text) q', subject] =
      (evalAt standard limit (d + 1) subject >>= fun v =>
        execute .regReplace "reg_replace" [.string source, .string text, v] p) := by
      rw [evalCall_of_callee (callee_of_get? get?_regReplace p rfl)]
      simp only [evalAllAt, hlit, pure_bind, bind_assoc]
      rfl
    have hplain : evalCall standard limit d "replace" p
        [subject, .literal (.string (String.ofList plain)) q,
          .literal (.string (String.ofList expanded)) q'] =
      (evalAt standard limit (d + 1) subject >>= fun v => execute .replace "replace"
        [v, .string (String.ofList plain), .string (String.ofList expanded)] p) := by
      rw [evalCall_of_callee (callee_of_get? get?_replace p rfl)]
      simp only [evalAllAt, hlit, pure_bind, bind_assoc]
      rfl
    rw [evalAt_call_none hd, hcall, hplain]
    exact (agrees_evalAt allLawful_standard subject hkey.2.2.1).bind fun v =>
      agrees_execute Function.lawful_regReplace.blind fun w =>
        Function.execute_regReplace_plain hs hne hp hr he v p w
  · have hw : standard.weight "reg_replace" = 1 := weight_of_get? get?_regReplace
    have hw' : standard.weight "replace" = 0 := weight_of_get? get?_replace
    simp only [Node.rank, rankAll, hw, hw']
    omega

/-- A split becomes the one of plain text. -/
theorem replaces_regSplit {args : List Node} {p : Place} {m : Node}
    (ha : Function.regSplit.arity.accepts args.length = true)
    (h : Function.splitRewrite args p = .ok (some m)) :
    standard.Replaces "reg_split" p args m := by
  obtain ⟨source, q, rest, plain, pattern, rfl, hs, hne, hp, rfl⟩ :=
    Function.splitRewrite_eq_some h
  refine ⟨fun limit d hkey => ?_, fun limit d hd hwithin hkey => ?_, ?_⟩
  · exact ⟨wellKeyed_of_memo?_eq_none rfl, wellKeyed_of_memo?_eq_none rfl, hkey.2⟩
  · have hlit : ∀ (v : Literal) (q : Place),
        evalAt standard limit (d + 1) (.literal v q) = pure v.toValue :=
      fun v q => evalAt_literal hwithin.1
    have ha' : Function.split.arity.accepts
        (Node.literal (.string (String.ofList plain)) q :: rest).length = true := ha
    rw [evalAt_call_none hd, evalCall_of_callee (callee_of_get? get?_regSplit p ha),
      evalCall_of_callee (callee_of_get? get?_split p ha')]
    simp only [evalAllAt, hlit, pure_bind, bind_assoc]
    exact (agrees_evalAllAt allLawful_standard rest hkey.2).bind fun vs =>
      agrees_execute Function.lawful_regSplit.blind fun w =>
        Function.execute_regSplit_plain hs hne hp vs p w
  · have hw : standard.weight "reg_split" = 1 := weight_of_get? get?_regSplit
    have hw' : standard.weight "split" = 0 := weight_of_get? get?_split
    simp only [Node.rank, rankAll, hw, hw']
    omega

/-- **The standard registry is lawful.** -/
theorem lawful_standard : standard.Lawful := by
  refine ⟨allLawful_standard, fun name f hf _ args p m ha hm => ?_⟩
  obtain ⟨hmem, rfl⟩ := mem_builtins hf
  rcases Function.rewrite_eq_some hmem hm with ⟨rfl, h⟩ | ⟨rfl, h⟩
  · exact replaces_regReplace h
  · exact replaces_regSplit ha h

end Registry

end CallScript
