import Mathlib.Data.List.Forall2
import CallScript.Proofs.Optimizer.Settled

/-!
# Budgets that are enough

What a call is replaced by goes to the optimizer again, at the same level, together with arguments that
were optimized already. So neither the levels nor the trees get smaller on the way, and the optimizer has
a budget. Here it is shown that the budget makes no difference where replacements are lighter than their
calls (`Registry.Lightens`), for some weights of the names of functions.

* `carries_optimizeAt`: what ends with a budget ends in the same way with a larger one;
* `ends_optimizeAt`: a budget above the mass of an expression is enough, and what comes out has no more
  nodes;
* `recursion_iff`: the recursion without a budget has one solution, and it is what the optimizer does;
* `ends_optimize` puts the statements of a program together.
-/

namespace CallScript

/-! ## 1. Masses -/

namespace Node

variable {w : String → Nat}

mutual

/-- The mass of a tree, for weights of names: a call adds one and the weight of its name, and a literal
    adds nothing. -/
def mass (w : String → Nat) : Node → Nat
  | .literal _ _ => 0
  | .call name _ args _ => massAll w args + w name + 1

def massAll (w : String → Nat) : List Node → Nat
  | [] => 0
  | n :: ns => n.mass w + massAll w ns

end

mutual

/-- With a bound for the names there is one for each node. -/
theorem mass_le {bound : Nat} (hw : ∀ name, w name ≤ bound) :
    ∀ n : Node, n.mass w ≤ n.size * (bound + 1)
  | .literal _ _ => Nat.zero_le _
  | .call name _ args _ => by
      have hargs := massAll_le hw args
      have hname := hw name
      rw [mass, size, Nat.add_mul]
      omega

theorem massAll_le {bound : Nat} (hw : ∀ name, w name ≤ bound) :
    ∀ ns : List Node, massAll w ns ≤ sizeAll ns * (bound + 1)
  | [] => Nat.zero_le _
  | n :: ns => by
      have hn := mass_le hw n
      have hns := massAll_le hw ns
      rw [massAll, sizeAll, Nat.add_mul]
      omega

end

theorem mass_le_massAll {n : Node} {ns : List Node} (h : n ∈ ns) :
    n.mass w ≤ massAll w ns := by
  induction h with
  | head ns => exact Nat.le_add_right _ _
  | tail m _ ih => exact Nat.le_trans ih (Nat.le_add_left _ _)

theorem size_le_sizeAll {n : Node} {ns : List Node} (h : n ∈ ns) : n.size ≤ sizeAll ns := by
  induction h with
  | head ns => exact Nat.le_add_right _ _
  | tail m _ ih => exact Nat.le_trans ih (Nat.le_add_left _ _)

end Node

/-- **Replacements are lighter than their calls**, and have no more nodes. -/
def Registry.Lightens (r : Registry) (w : String → Nat) : Prop :=
  ∀ name f, r.get? name = some f → f.allows .rewritten = true →
    ∀ args p m, f.rewrite args p = .ok (some m) →
      m.mass w < Node.massAll w args + w name + 1 ∧ m.size ≤ Node.sizeAll args + 1

namespace Optimizer

open Node (massAll sizeAll)

variable {r : Registry} {o : Options} {w : String → Nat}

/-! ## 2. Ways to end -/

/-- The optimizer comes to an end, with what fits or with an error of the program. -/
def Ends {α : Type} (fit : α → Prop) : Except CompileError α → Prop
  | .ok a => fit a
  | .error e => ∀ p, e ≠ .unsettled p

/-- If the first computation comes to an end, the second one comes to the same. -/
def Carries {α : Type} (x y : Except CompileError α) : Prop := Ends (fun _ => True) x → y = x

section

variable {α β : Type} {fit fit' : α → Prop} {x y : Except CompileError α}

theorem Ends.imp (hx : Ends fit x) (h : ∀ a, fit a → fit' a) : Ends fit' x := by
  cases x with
  | error e => exact hx
  | ok a => exact h a hx

theorem Ends.bind {fit' : β → Prop} {k : α → Except CompileError β} (hx : Ends fit x)
    (hk : ∀ a, x = .ok a → fit a → Ends fit' (k a)) : Ends fit' (x >>= k) := by
  cases x with
  | error e => exact hx
  | ok a => exact hk a rfl hx

theorem Ends.ne_unsettled (hx : Ends fit x) (p : Place) : x ≠ .error (.unsettled p) := by
  rintro rfl
  exact hx p rfl

theorem Carries.refl (x : Except CompileError α) : Carries x x := fun _ => rfl

theorem Carries.bind {k k' : α → Except CompileError β} (hx : Carries x y)
    (hk : ∀ a, Carries (k a) (k' a)) : Carries (x >>= k) (y >>= k') := by
  intro hends
  cases x with
  | error e =>
      rw [hx hends]
      rfl
  | ok a =>
      rw [hx trivial]
      exact hk a hends

end

/-! ## 3. Larger budgets -/

/-- Nothing but the replacement goes on, and it goes on in the same way. -/
theorem carries_optimizeCall {again again' : Node → Except CompileError Node}
    (h : ∀ m, Carries (again m) (again' m)) (name : String) (p : Place) (args : List Node)
    (memo : Option MemoKey) :
    Carries (optimizeCall r o again name p args memo) (optimizeCall r o again' name p args memo) := by
  cases optimizeCall_cases r o name p args memo with
  | refused _ hcall =>
      rw [hcall, hcall]
      exact .refl _
  | kept _ _ _ _ hcall =>
      rw [hcall, hcall]
      exact .refl _
  | replaced _ _ _ _ hcall =>
      rw [hcall, hcall]
      exact h _

mutual

/-- Where replacements end, it does not matter what else would be done with others. -/
theorem carries_optimizeWith {again again' : Nat → Node → Except CompileError Node}
    (h : ∀ d m, Carries (again d m) (again' d m)) :
    ∀ (n : Node) (d : Nat), Carries (optimizeWith r o again d n) (optimizeWith r o again' d n)
  | .literal v p, d => by
      rw [optimizeWith, optimizeWith]
      exact .refl _
  | .call name p args memo, d => by
      rw [optimizeWith, optimizeWith]
      split
      · exact .refl _
      · exact (carries_optimizeAllWith h args (d + 1)).bind fun args' =>
          carries_optimizeCall (h d) name p args' memo

theorem carries_optimizeAllWith {again again' : Nat → Node → Except CompileError Node}
    (h : ∀ d m, Carries (again d m) (again' d m)) :
    ∀ (ns : List Node) (d : Nat),
      Carries (optimizeAllWith r o again d ns) (optimizeAllWith r o again' d ns)
  | [], _ => .refl _
  | n :: ns, d =>
      (carries_optimizeWith h n d).bind fun _ =>
        (carries_optimizeAllWith h ns d).bind fun _ => .refl _

end

/-- **What ends with a budget ends in the same way with a larger one.** -/
theorem carries_optimizeAt {budget : Nat} : ∀ {more : Nat}, budget ≤ more → ∀ (d : Nat) (n : Node),
    Carries (optimizeAt r o budget d n) (optimizeAt r o more d n) := by
  induction budget with
  | zero => exact fun _ _ n hends => absurd rfl (hends n.place)
  | succ budget ih =>
      intro more hle d n
      obtain ⟨more, rfl⟩ := Nat.exists_eq_add_of_le hle
      rw [Nat.add_right_comm]
      exact carries_optimizeWith (ih (Nat.le_add_right budget more)) n d

/-! ## 4. Budgets above the mass -/

/-- What comes out is not heavier, and has no more nodes. -/
def Shrinks (w : String → Nat) (n n' : Node) : Prop := n'.mass w ≤ n.mass w ∧ n'.size ≤ n.size

def AllShrink (w : String → Nat) (ns ns' : List Node) : Prop :=
  massAll w ns' ≤ massAll w ns ∧ sizeAll ns' ≤ sizeAll ns

/-- A call comes to an end if lighter expressions do. -/
theorem ends_optimizeCall (hr : r.Lightens w) {again : Node → Except CompileError Node} {bound : Nat}
    (hagain : ∀ m, m.mass w < bound → Ends (Shrinks w m) (again m)) {name : String} {p : Place}
    {args args' : List Node} (hargs : AllShrink w args args') {memo : Option MemoKey}
    (hbound : (Node.call name p args memo).mass w ≤ bound) :
    Ends (Shrinks w (.call name p args memo)) (optimizeCall r o again name p args' memo) := by
  obtain ⟨hmass, hsize⟩ := hargs
  cases optimizeCall_cases r o name p args' memo with
  | refused he hcall =>
      rw [hcall]
      rintro q rfl
      exact he
  | kept _ _ _ _ hcall =>
      rw [hcall]
      exact ⟨Nat.add_le_add_right (Nat.add_le_add_right hmass _) 1, Nat.add_le_add_right hsize 1⟩
  | @replaced f m hf _ hw hm hcall =>
      rw [hcall]
      obtain ⟨hlighter, hsmaller⟩ := hr name f hf hw args' p m hm
      have hm : m.mass w < (Node.call name p args memo).mass w :=
        Nat.lt_of_lt_of_le hlighter (Nat.add_le_add_right (Nat.add_le_add_right hmass _) 1)
      refine (hagain m (Nat.lt_of_lt_of_le hm hbound)).imp fun n hn => ?_
      exact ⟨Nat.le_trans hn.1 (Nat.le_of_lt hm),
        Nat.le_trans hn.2 (Nat.le_trans hsmaller (Nat.add_le_add_right hsize 1))⟩

mutual

/-- **An expression comes to an end if lighter ones do.** The induction is on the expression; its optimized
    arguments are not heavier than those that were written, so a replacement is lighter than the
    expression. -/
theorem ends_optimizeWith (hr : r.Lightens w) {again : Nat → Node → Except CompileError Node}
    {bound : Nat} (hagain : ∀ d m, m.mass w < bound → Ends (Shrinks w m) (again d m)) :
    ∀ (n : Node) (d : Nat), n.mass w ≤ bound → Ends (Shrinks w n) (optimizeWith r o again d n)
  | .literal v p, d, _ => by
      rw [optimizeWith]
      split
      · exact nofun
      · exact ⟨Nat.le_refl _, Nat.le_refl _⟩
  | .call name p args memo, d, hbound => by
      have hle : massAll w args ≤ bound :=
        Nat.le_trans (Nat.le_trans (Nat.le_add_right _ (w name)) (Nat.le_succ _)) hbound
      rw [optimizeWith]
      split
      · exact nofun
      · exact (ends_optimizeAllWith hr hagain args (d + 1) hle).bind fun args' _ hargs =>
          ends_optimizeCall hr (hagain d) hargs hbound

theorem ends_optimizeAllWith (hr : r.Lightens w) {again : Nat → Node → Except CompileError Node}
    {bound : Nat} (hagain : ∀ d m, m.mass w < bound → Ends (Shrinks w m) (again d m)) :
    ∀ (ns : List Node) (d : Nat), massAll w ns ≤ bound →
      Ends (AllShrink w ns) (optimizeAllWith r o again d ns)
  | [], _, _ => ⟨Nat.le_refl _, Nat.le_refl _⟩
  | n :: ns, d, hbound => by
      have hn : n.mass w ≤ bound := Nat.le_trans (Nat.le_add_right _ _) hbound
      have hns : massAll w ns ≤ bound := Nat.le_trans (Nat.le_add_left _ _) hbound
      rw [optimizeAllWith]
      refine (ends_optimizeWith hr hagain n d hn).bind fun n' _ hn' => ?_
      refine (ends_optimizeAllWith hr hagain ns d hns).bind fun ns' _ hns' => ?_
      exact ⟨Nat.add_le_add hn'.1 hns'.1, Nat.add_le_add hn'.2 hns'.2⟩

end

/-- **A budget above the mass is enough**, and what comes out is not heavier and has no more nodes. -/
theorem ends_optimizeAt (hr : r.Lightens w) (budget : Nat) : ∀ (d : Nat) (n : Node),
    n.mass w < budget → Ends (Shrinks w n) (optimizeAt r o budget d n) := by
  induction budget with
  | zero => exact fun _ _ h => (Nat.not_lt_zero _ h).elim
  | succ budget ih => exact fun d n h => ends_optimizeWith hr ih n d (Nat.le_of_lt_succ h)

section

variable (hr : r.Lightens w) (hw : ∀ name, w name ≤ r.size)
include hr hw

/-- The budget of an expression is above its mass. -/
theorem ends_budgetFor (d : Nat) (n : Node) :
    Ends (Shrinks w n) (optimizeAt r o (budgetFor r n) d n) := by
  refine ends_optimizeAt hr _ d n ?_
  calc n.mass w ≤ n.size * (r.size + 1) := Node.mass_le hw n
    _ ≤ n.size * (r.size + 2) := Nat.mul_le_mul_left _ (Nat.le_succ _)
    _ < (n.size + 1) * (r.size + 2) := Nat.mul_lt_mul_of_pos_right (Nat.lt_succ_self _) (Nat.succ_pos _)

/-- No larger budget makes a difference. -/
theorem optimizeAt_of_budgetFor_le {budget d : Nat} {n : Node} (h : budgetFor r n ≤ budget) :
    optimizeAt r o budget d n = optimizeAt r o (budgetFor r n) d n :=
  carries_optimizeAt h d n ((ends_budgetFor hr hw d n).imp fun _ _ => trivial)

/-- **The recursion without a budget has one solution**, and it is what the optimizer does. -/
theorem recursion_iff {run : Nat → Node → Except CompileError Node} :
    (∀ d n, run d n = optimizeWith r o run d n) ↔
      ∀ d n, run d n = optimizeAt r o (budgetFor r n) d n := by
  constructor
  · intro hrun
    have hcarries : ∀ budget d n, Carries (optimizeAt r o budget d n) (run d n) := by
      intro budget
      induction budget with
      | zero => exact fun _ n hends => absurd rfl (hends n.place)
      | succ budget ih =>
          intro d n
          rw [hrun]
          exact carries_optimizeWith ih n d
    intro d n
    exact hcarries _ d n ((ends_budgetFor hr hw d n).imp fun _ _ => trivial)
  · intro hrun d n
    obtain ⟨budget, hbudget⟩ := budgetFor_eq_succ r n
    have hcarries : ∀ d m, Carries (optimizeAt r o budget d m) (run d m) := by
      intro d m
      rw [hrun]
      rcases Nat.le_total budget (budgetFor r m) with hle | hle
      · exact carries_optimizeAt hle d m
      · rw [optimizeAt_of_budgetFor_le hr hw hle]
        exact .refl _
    have hends := (ends_budgetFor (o := o) hr hw d n).imp fun _ _ => trivial
    rw [hrun, hbudget]
    rw [hbudget] at hends
    exact (carries_optimizeWith hcarries n d hends).symm

end

/-! ## 5. Programs -/

/-- **A program comes to an end if its statements do**: those that are kept, in their order, each as the
    optimizer left it. -/
theorem ends_optimize {fit : Node → Node → Prop} : ∀ (p : Program),
    (∀ n ∈ p, Ends (fit n) (optimizeNode r o n)) →
    Ends (fun q => ∃ kept, kept.Sublist p ∧
      List.Forall₂ (fun n m => optimizeNode r o n = .ok m ∧ fit n m) kept q) (optimize r o p)
  | [], _ => ⟨[], .slnil, .nil⟩
  | [n], h =>
      (h n List.mem_cons_self).bind fun _ hm hfit => ⟨[n], .refl _, .cons ⟨hm, hfit⟩ .nil⟩
  | n :: n' :: p, h => by
      obtain ⟨hn, hp⟩ := List.forall_mem_cons.1 h
      rw [optimize_cons_cons]
      refine hn.bind fun m hm hfit => (ends_optimize (n' :: p) hp).bind fun q _ hq => ?_
      obtain ⟨kept, hkept, hall⟩ := hq
      by_cases hdrop : (o.dropUnused && isDroppable r m) = true
      · rw [if_pos hdrop]
        exact ⟨kept, hkept.cons n, hall⟩
      · rw [if_neg hdrop]
        exact ⟨n :: kept, hkept.cons_cons n, .cons ⟨hm, hfit⟩ hall⟩

/-- Programs differ in no more than their statements do. -/
theorem optimizeBy_eq_optimize {budget : Node → Nat} : ∀ (p : Program),
    (∀ n ∈ p, optimizeAt r o (budget n) 1 n = optimizeNode r o n) →
    optimizeBy r o budget p = optimize r o p
  | [], _ => rfl
  | [n], h => by
      rw [optimizeBy, optimize, h n List.mem_cons_self]
  | n :: n' :: p, h => by
      obtain ⟨hn, hp⟩ := List.forall_mem_cons.1 h
      rw [optimizeBy_cons_cons, optimize_cons_cons, hn, optimizeBy_eq_optimize (n' :: p) hp]

end Optimizer

end CallScript
