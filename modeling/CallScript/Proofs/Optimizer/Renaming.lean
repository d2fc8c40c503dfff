import Mathlib.Data.Finset.Card
import Mathlib.Data.Finset.Filter
import Mathlib.Logic.Relation
import CallScript.Proofs.Function.Rewrite
import CallScript.Proofs.Optimizer.Budgets

/-!
# Functions of a host that rename calls

A host adds functions of its own to those of the language. Their calls may be replaced by a literal, by one
of the arguments, or by the same call under another name (`Node.Substitute`). There is an end to that if
the names do not go round in a circle: then the names that can still be reached get fewer with each
renaming, and they are the weights of the names.

* `exists_rank`: a relation without cycles goes down in the number of elements that can be reached;
* `exists_lightens`: the functions of the language add two steps, into names from which nothing leads
  on, so replacements get lighter;
* `optimize_ends_of_acyclic`: the optimizer comes to an end with every program, no larger budget makes a
  difference, and no statement grows.
-/

namespace CallScript

open Relation (TransGen ReflTransGen)

/-! ## 1. Ranks -/

/-- **A relation without cycles goes down** in the number of listed elements that can be reached, if
    every step starts at a listed one. -/
theorem exists_rank {α : Type} [DecidableEq α] {S : α → α → Prop} (hS : ∀ a, ¬ TransGen S a a)
    {names : List α} (hnames : ∀ a b, S a b → a ∈ names) :
    ∃ w : α → Nat, (∀ a, w a ≤ names.length) ∧ ∀ a b, S a b → w b < w a := by
  classical
  let reached := fun a => names.toFinset.filter (ReflTransGen S a)
  refine ⟨fun a => (reached a).card, fun a => ?_, fun a b hab => ?_⟩
  · exact Nat.le_trans (Finset.card_filter_le _ _) (List.toFinset_card_le names)
  · have hsub : reached b ⊆ reached a := fun c hc =>
      Finset.mem_filter.2 ⟨(Finset.mem_filter.1 hc).1, .head hab (Finset.mem_filter.1 hc).2⟩
    have hmem : a ∈ reached a :=
      Finset.mem_filter.2 ⟨List.mem_toFinset.2 (hnames a b hab), .refl⟩
    have hnot : a ∉ reached b := fun ha =>
      hS a (.head' hab (Finset.mem_filter.1 ha).2)
    exact Finset.card_lt_card ((Finset.ssubset_iff_of_subset hsub).2 ⟨a, hmem, hnot⟩)

/-- What goes down has no cycles. -/
theorem not_transGen_self {α : Type} {S : α → α → Prop} {level : α → Nat}
    (h : ∀ a b, S a b → level b < level a) (a : α) : ¬ TransGen S a a := by
  have hdown : ∀ b, TransGen S a b → level b < level a := by
    intro b hb
    induction hb with
    | single hab => exact h _ _ hab
    | tail _ hbc ih => exact Nat.lt_trans (h _ _ hbc) ih
  exact fun ha => Nat.lt_irrefl _ (hdown a ha)

/-! ## 2. Functions of a host -/

/-- What may stand in for a call with the arguments: a literal, one of the arguments, or the same call
    under another name. -/
inductive Node.Substitute (args : List Node) : Node → Prop
  | literal (v : Literal) (p : Place) : Substitute args (.literal v p)
  | argument {n : Node} (h : n ∈ args) : Substitute args n
  | renamed (name : String) (p : Place) (memo : Option MemoKey) :
      Substitute args (.call name p args memo)

/-- If calls of the function are replaced, then by what may stand in for them. -/
def Function.Substitutes (f : Function) : Prop :=
  ∀ args p m, f.rewrite args p = .ok (some m) → Node.Substitute args m

namespace Registry

variable {r : Registry} {hosts : List Function} {a b c : String}

/-- There is a call of the first name that becomes the same call of the second name. -/
def Renames (r : Registry) (a b : String) : Prop :=
  ∃ f args p q memo, r.get? a = some f ∧ f.allows .rewritten = true ∧
    f.rewrite args p = .ok (some (.call b q args memo))

/-- A call of the first name may become one of the second name that has the same calls below it. -/
def Leads (r : Registry) (a b : String) : Prop :=
  r.Renames a b ∨ a = "reg_replace" ∧ b = "replace" ∨ a = "reg_split" ∧ b = "split"

theorem not_renames {f : Function} (hf : r.get? a = some f) (hf' : f.allows .rewritten = false) :
    ¬ r.Renames a b := by
  rintro ⟨g, _, _, _, _, hg, hallow, -⟩
  cases hf.symm.trans hg
  exact Bool.false_ne_true (hf'.symm.trans hallow)

/-- Calls on plain text are not replaced, so nothing leads on from them. -/
theorem not_leads_plain (ha : a = "replace" ∨ a = "split") :
    ¬ (standard.extend hosts).Leads a b := by
  rintro (h | ⟨hreplace, -⟩ | ⟨hsplit, -⟩)
  · rcases ha with rfl | rfl
    · exact not_renames (get?_extend_of_standard get?_replace) rfl h
    · exact not_renames (get?_extend_of_standard get?_split) rfl h
  · subst hreplace
    exact absurd ha (by decide)
  · subst hsplit
    exact absurd ha (by decide)

/-- **A step that another one follows is a renaming.** -/
theorem Leads.renames (h : (standard.extend hosts).Leads a b)
    (h' : (standard.extend hosts).Leads b c) : (standard.extend hosts).Renames a b := by
  rcases h with h | ⟨-, hb⟩ | ⟨-, hb⟩
  · exact h
  · exact absurd h' (not_leads_plain (.inl hb))
  · exact absurd h' (not_leads_plain (.inr hb))

/-- So the steps go round in no circle where the renamings do not. -/
theorem not_transGen_leads (h : ∀ a, ¬ TransGen (standard.extend hosts).Renames a a) (a : String) :
    ¬ TransGen (standard.extend hosts).Leads a a := by
  have hrenames : ∀ b c, TransGen (standard.extend hosts).Leads a b →
      (standard.extend hosts).Leads b c → TransGen (standard.extend hosts).Renames a b := by
    intro b c hab
    induction hab generalizing c with
    | single hab => exact fun hbc => .single (hab.renames hbc)
    | tail _ hbc ih => exact fun hcd => .tail (ih _ hbc) (hbc.renames hcd)
  intro ha
  obtain ⟨b, hab, -⟩ := TransGen.head'_iff.1 ha
  exact h a (hrenames a b ha hab)

/-- Every step starts at a name of the registry. -/
theorem Leads.mem_names (h : (standard.extend hosts).Leads a b) :
    a ∈ (standard.extend hosts).names := by
  rcases h with ⟨f, _, _, _, _, hf, -⟩ | ⟨rfl, -⟩ | ⟨rfl, -⟩
  · exact listed_standard.extend hosts a f hf
  · exact listed_standard.extend hosts _ _ (get?_extend_of_standard get?_regReplace)
  · exact listed_standard.extend hosts _ _ (get?_extend_of_standard get?_regSplit)

/-- **What stands in for calls is lighter**, where each step goes down to a name of less weight. -/
theorem lightens_extend (hsub : ∀ f ∈ hosts, f.Substitutes) {w : String → Nat}
    (hw : ∀ a b, (standard.extend hosts).Leads a b → w b < w a) :
    (standard.extend hosts).Lightens w := by
  intro name f hf hallow args p m hm
  obtain ⟨hname, hmem | hmem⟩ := mem_of_get?_extend hf
  · rcases Function.rewrite_eq_some hmem hm with ⟨rfl, h⟩ | ⟨rfl, h⟩
    · obtain ⟨_, _, _, _, subject, _, _, _, _, rfl, -, -, -, -, -, rfl⟩ :=
        Function.replaceRewrite_eq_some h
      obtain rfl : name = "reg_replace" := hname.symm
      have hlt := hw "reg_replace" "replace" (.inr (.inl ⟨rfl, rfl⟩))
      simp only [Node.mass, Node.massAll, Node.size, Node.sizeAll]
      omega
    · obtain ⟨_, _, rest, _, _, rfl, -, -, -, rfl⟩ := Function.splitRewrite_eq_some h
      obtain rfl : name = "reg_split" := hname.symm
      have hlt := hw "reg_split" "split" (.inr (.inr ⟨rfl, rfl⟩))
      simp only [Node.mass, Node.massAll, Node.size, Node.sizeAll]
      omega
  · cases hsub f hmem args p m hm with
    | literal v q => exact ⟨Nat.succ_pos _, Nat.succ_le_succ (Nat.zero_le _)⟩
    | argument h =>
        have hmass := Node.mass_le_massAll (w := w) h
        have hsize := Node.size_le_sizeAll h
        omega
    | renamed b q memo =>
        have hlt := hw name b (.inl ⟨f, args, p, q, memo, hf, hallow, hm⟩)
        simp only [Node.mass, Node.size]
        omega

/-- There are weights for which what stands in for calls is lighter, and none is above the number of
    names. -/
theorem exists_lightens (hsub : ∀ f ∈ hosts, f.Substitutes)
    (h : ∀ a, ¬ TransGen (standard.extend hosts).Renames a a) :
    ∃ w : String → Nat, (standard.extend hosts).Lightens w ∧
      ∀ name, w name ≤ (standard.extend hosts).size := by
  obtain ⟨w, hbound, hw⟩ := exists_rank (not_transGen_leads h) fun _ _ hab => hab.mem_names
  exact ⟨w, lightens_extend hsub hw, hbound⟩

end Registry

/-! ## 3. Programs -/

namespace Optimizer

open Registry (standard)

variable {hosts : List Function}

/-- **The optimizer comes to an end, and no statement grows.** A host adds functions to those of the
    language, whose calls are replaced by a literal, by one of their arguments, or by the same call under
    another name, if at all; and the names do not go round in a circle. Then no program is given up for
    its replacements, and it makes no difference how many more of them would be allowed. The statements of
    the result are those of the program, as far as they are kept, and each has at most as many nodes as
    the one that it came from. -/
theorem optimize_ends_of_acyclic (hsub : ∀ f ∈ hosts, f.Substitutes)
    (hacyclic : ∀ name, ¬ TransGen (standard.extend hosts).Renames name name) (o : Options)
    (p : Program) :
    (∀ place, optimize (standard.extend hosts) o p ≠ .error (.unsettled place)) ∧
    (∀ budget, (∀ n ∈ p, budgetFor (standard.extend hosts) n ≤ budget n) →
      optimizeBy (standard.extend hosts) o budget p = optimize (standard.extend hosts) o p) ∧
    ∀ q, optimize (standard.extend hosts) o p = .ok q → ∃ kept, kept.Sublist p ∧
      List.Forall₂ (fun n m => optimizeNode (standard.extend hosts) o n = .ok m ∧ m.size ≤ n.size)
        kept q := by
  obtain ⟨w, hr, hw⟩ := Registry.exists_lightens hsub hacyclic
  have hstatement : ∀ n ∈ p, Ends (Shrinks w n) (optimizeNode (standard.extend hosts) o n) :=
    fun n _ => ends_budgetFor hr hw 1 n
  have hends := ends_optimize p hstatement
  refine ⟨hends.ne_unsettled, fun budget hbudget => ?_, fun q hq => ?_⟩
  · exact optimizeBy_eq_optimize p fun n hn => optimizeAt_of_budgetFor_le hr hw (hbudget n hn)
  · rw [hq] at hends
    obtain ⟨kept, hkept, hall⟩ := hends
    exact ⟨kept, hkept, hall.imp fun _ _ h => ⟨h.1, h.2.2⟩⟩

/-- One name of a host stands for another one, and that for a name of the language. -/
def quotingHosts : List Function := [renamed "quotes" "quote", renamed "quote" "reg_escape"]

/-- The number of steps that lead on from a name. -/
def quotingLevel (name : String) : Nat :=
  if name = "quotes" then 2 else if name ∈ ["quote", "reg_replace", "reg_split"] then 1 else 0

theorem substitutes_quotingHosts : ∀ f ∈ quotingHosts, f.Substitutes := by
  have hrenamed : ∀ name target, (renamed name target).Substitutes := by
    intro name target args p m h
    cases h
    exact .renamed _ _ _
  intro f hf
  simp only [quotingHosts, List.mem_cons, List.not_mem_nil, or_false] at hf
  rcases hf with rfl | rfl
  · exact hrenamed _ _
  · exact hrenamed _ _

/-- Every renaming is a step down, those of the language included. -/
theorem quotingLevel_of_renames {a b : String} (h : (standard.extend quotingHosts).Renames a b) :
    quotingLevel b < quotingLevel a := by
  obtain ⟨f, args, p, q, memo, hf, -, hm⟩ := h
  obtain ⟨rfl, hmem | hmem⟩ := Registry.mem_of_get?_extend hf
  · rcases Function.rewrite_eq_some hmem hm with ⟨rfl, h⟩ | ⟨rfl, h⟩
    · obtain ⟨_, _, _, _, _, _, _, _, _, -, -, -, -, -, -, heq⟩ := Function.replaceRewrite_eq_some h
      cases heq
      decide
    · obtain ⟨_, _, _, _, _, -, -, -, -, heq⟩ := Function.splitRewrite_eq_some h
      cases heq
      decide
  · simp only [quotingHosts, List.mem_cons, List.not_mem_nil, or_false] at hmem
    rcases hmem with rfl | rfl
    · cases hm
      decide
    · cases hm
      decide

/-- Both names of the host go, one after the other. -/
theorem optimize_ends_of_acyclic_quoting :
    (∀ f ∈ quotingHosts, f.Substitutes) ∧
    (∀ name, ¬ TransGen (standard.extend quotingHosts).Renames name name) ∧
    ∀ place, optimize (standard.extend quotingHosts) {}
      [.call "quotes" default [.call "quote" default [.literal (.string ".") default] none] none] ≠
        .error (.unsettled place) := by
  have hacyclic := not_transGen_self fun a b => @quotingLevel_of_renames a b
  exact ⟨substitutes_quotingHosts, hacyclic,
    (optimize_ends_of_acyclic substitutes_quotingHosts hacyclic {} _).1⟩

end Optimizer

end CallScript
