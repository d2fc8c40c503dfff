import CallScript.Proofs.Node.Levels
import CallScript.Proofs.Node.Productions
import CallScript.Proofs.Token.Writing

/-!
# Printed programs

A tree is written as a text (`Node.render`), and a program as its statements with semicolons between
them. Only the names of calls could get in the way of reading that back: a name must be one that the
language has (`Named`). Places and memo keys are not written, so two trees count as the same here if
they differ in nothing else (`Node.bare`).

* `cutsInto_render`: the text of a tree is cut into tokens that derive the tree, in front of every
  text that does not go on with a name;
* `parse_scan_render`: what is written for a program is read back as the program.
-/

namespace CallScript

open Token

/-! ## 1. Trees without places and keys -/

namespace Node

mutual

/-- The tree without its places and memo keys. -/
def bare : Node → Node
  | .literal v _ => .literal v default
  | .call name _ args _ => .call name default (bareAll args) none

def bareAll : List Node → List Node
  | [] => []
  | n :: ns => n.bare :: bareAll ns

end

theorem bareAll_eq_map (ns : List Node) : bareAll ns = ns.map bare := by
  induction ns with
  | nil => rfl
  | cons n ns ih => exact congrArg (n.bare :: ·) ih

theorem renderAll_eq_map (ns : List Node) : renderAll ns = ns.map render := by
  induction ns with
  | nil => rfl
  | cons n ns ih => exact congrArg (n.render :: ·) ih

/-- A call has a name that the language has for a function. -/
def Named (_ : Nat) (n : Node) : Prop :=
  ∀ name, n.name? = some name → IsName name.toList ∧ name ≠ "null"

end Node

/-! ## 2. Literals -/

namespace Literal

/-- A character of a string is written as itself, or as an escape that stands for it. -/
theorem escape_cases (c : Char) :
    (escape c = [c] ∧ c ≠ '\x27' ∧ c ≠ '\\') ∨ ∃ x, escape c = ['\\', x] ∧ unescape x = [c] := by
  by_cases hslash : c = '\\'
  · subst hslash
    exact Or.inr ⟨'\\', rfl, rfl⟩
  by_cases hquote : c = '\x27'
  · subst hquote
    exact Or.inr ⟨'\x27', rfl, rfl⟩
  by_cases hline : c = '\n'
  · subst hline
    exact Or.inr ⟨'n', rfl, rfl⟩
  by_cases htab : c = '\t'
  · subst htab
    exact Or.inr ⟨'t', rfl, rfl⟩
  by_cases hreturn : c = '\r'
  · subst hreturn
    exact Or.inr ⟨'r', rfl, rfl⟩
  refine Or.inl ⟨?_, hquote, hslash⟩
  rw [escape, if_neg hslash, if_neg hquote, if_neg hline, if_neg htab, if_neg hreturn]

/-- The escaped characters write the string. -/
theorem writesBody_escape (cs : List Char) : WritesBody '\x27' cs (cs.flatMap escape) := by
  have h := writesBody_flatMap escape_cases cs
  rwa [List.map_id'] at h

/-- The token that the literal is written as. -/
def kind : Literal → Kind
  | .string s => .string s
  | .integer n => .integer (Decimal.render n)
  | .null => .null

theorem writes_render (v : Literal) : Writes v.kind v.render.toList := by
  cases v with
  | string s =>
      have hquote : isQuote '\x27' = true := rfl
      have h := Writes.string hquote (writesBody_escape s.toList)
      rw [String.ofList_toList] at h
      rw [render, String.toList_ofList]
      exact h
  | integer n => exact .integer (Decimal.numeral_render n)
  | null =>
      have hname : IsName ['n', 'u', 'l', 'l'] := ⟨'n', _, rfl, rfl, List.all_eq_true.1 rfl⟩
      exact .word hname

/-- The token of a literal derives the literal. -/
theorem derives {limit d : Nat} (hd : d ≤ limit) (v : Literal) (p : Place) :
    Node.DerivesExpr limit d [⟨v.kind, p⟩] (.literal v p) := by
  cases v with
  | string s => exact .expr hd (.string s p) (.nil _)
  | integer n =>
      have h := (Decimal.parse?_eq_some_iff (Decimal.numeral_render n)).1 (Decimal.parse?_render n)
      exact .expr hd (.integer _ n p h) (.nil _)
  | null => exact .expr hd (.null p) (.nil _)

end Literal

/-! ## 3. Trees -/

namespace Node

variable {limit d : Nat}

/-- The tokens derive the tree, its places and memo keys aside. -/
def Derives (limit d : Nat) (n : Node) (ts : List Token) : Prop :=
  ∃ m, DerivesExpr limit d ts m ∧ m.bare = n.bare

/-- The tokens derive the trees as arguments, their places and memo keys aside. -/
def DerivesAll (limit d : Nat) (ns : List Node) (ts : List Token) : Prop :=
  ∃ ms, DerivesArguments limit d ts ms ∧ bareAll ms = bareAll ns

theorem cutsInto_literal (hd : d ≤ limit) (v : Literal) (p : Place) :
    CutsInto (Derives limit d (.literal v p)) v.render.toList := by
  refine (cutsInto_token v.writes_render).imp ?_
  rintro _ ⟨q, rfl⟩
  exact ⟨_, v.derives hd q, rfl⟩

/-- The text of a call: its name, and the arguments in parentheses. -/
theorem toList_renderCall (name : String) (args : List String) :
    (renderCall name args).toList =
      name.toList ++ '(' :: ((", ".intercalate args).toList ++ [')']) := by
  simp [renderCall]

/-- A name and what stands in parentheses behind it. -/
theorem cutsInto_renderCall {D : List Token → Prop} {args : List String}
    (h : CutsInto D (", ".intercalate args).toList) {name : String} (hname : IsName name.toList)
    (hnull : name ≠ "null") :
    CutsInto (fun us => ∃ p q q' vs, D vs ∧
      us = ⟨.ident name, p⟩ :: ⟨.leftParen, q⟩ :: (vs ++ [⟨.rightParen, q'⟩]))
      (renderCall name args).toList := by
  have hword : Writes (.ident name) name.toList := by
    rw [← word_of_ne_null hnull]
    exact .word hname
  have hopen : punctuation? '(' = some .leftParen := rfl
  have hclose : punctuation? ')' = some .rightParen := rfl
  rw [toList_renderCall]
  refine ((cutsInto_token hword).separate hopen (h.separate hclose cutsInto_nil)).imp ?_
  rintro _ ⟨q, _, _, rfl, ⟨p, rfl⟩, q', vs, _, rfl, hvs, rfl⟩
  exact ⟨p, q, q', vs, hvs, rfl⟩

/-- The text of arguments: the texts with commas between them. -/
theorem cutsInto_arguments {ns : List Node} (hne : ns ≠ [])
    (h : ∀ n ∈ ns, CutsInto (Derives limit d n) n.render.toList) :
    CutsInto (DerivesAll limit d ns) (", ".intercalate (renderAll ns)).toList := by
  have hcomma : punctuation? ',' = some .comma := rfl
  have htext : (", ".intercalate (renderAll ns)).toList =
      [',', ' '].intercalate (ns.map (·.render.toList)) := by
    rw [String.toList_intercalate, renderAll_eq_map, List.map_map]
    rfl
  rw [htext]
  refine cutsInto_intercalate hcomma (List.forall_mem_singleton.2 rfl) ?_ ?_ hne h
  · rintro n us ⟨m, hm, hbare⟩
    exact ⟨[m], .last hm, congrArg ([·]) hbare⟩
  · rintro n ns p us vs ⟨m, hm, hbare⟩ ⟨ms, hms, hbares⟩
    exact ⟨m :: ms, .next p hm hms, by rw [bareAll, bareAll, hbare, hbares]⟩

mutual

/-- **The text of a tree is cut into tokens that derive the tree.** -/
theorem cutsInto_render : ∀ (n : Node) {d : Nat}, n.Every Named d → d + n.depth ≤ limit + 1 →
    CutsInto (Derives limit d n) n.render.toList
  | .literal v p, d, _, h => cutsInto_literal (Nat.le_of_succ_le_succ h) v p
  | .call name p args memo, d, ⟨hname, hargs⟩, h => by
      obtain ⟨hform, hnull⟩ := hname name rfl
      have hd : d ≤ limit := by simp only [depth] at h; omega
      have hall := cutsInto_each args hargs (by simp only [depth] at h; omega)
      cases args with
      | nil =>
          refine (cutsInto_renderCall cutsInto_nil hform hnull).imp ?_
          rintro _ ⟨q, q', q'', _, rfl, rfl⟩
          exact ⟨_, .expr hd (.callEmpty name q q' q'') (.nil _), rfl⟩
      | cons n ns =>
          have hargs := cutsInto_arguments (List.cons_ne_nil n ns) hall
          refine (cutsInto_renderCall hargs hform hnull).imp ?_
          rintro _ ⟨q, q', q'', vs, ⟨ms, hms, hbare⟩, rfl⟩
          have hcall := DerivesExpr.expr hd (.call name q q' q'' hms) (.nil _)
          rw [List.append_nil] at hcall
          exact ⟨_, hcall, by rw [bare, bare, hbare]⟩

theorem cutsInto_each : ∀ (ns : List Node) {d : Nat}, EveryIn Named d ns →
    depthAll ns ≤ limit + 1 - d → ∀ n ∈ ns, CutsInto (Derives limit d n) n.render.toList
  | [], _, _, _ => fun _ hn => (List.not_mem_nil hn).elim
  | n :: ns, d, ⟨hname, hnames⟩, h => by
      have hn := one_le_depth n
      have hfirst := cutsInto_render n hname (by simp only [depthAll] at h; omega)
      have hrest := cutsInto_each ns hnames (by simp only [depthAll] at h; omega)
      exact List.forall_mem_cons.2 ⟨hfirst, hrest⟩

end

/-! ## 4. Programs -/

/-- The tokens derive the program, its places and memo keys aside. -/
def DerivesText (limit : Nat) (program : Program) (ts : List Token) : Prop :=
  ∃ program', DerivesProgram limit ts program' ∧ bareAll program' = bareAll program

theorem cutsInto_program {program : Program}
    (h : ∀ n ∈ program, CutsInto (Derives limit 1 n) n.render.toList) :
    CutsInto (DerivesText limit program) (";".intercalate (program.map render)).toList := by
  have hmark : punctuation? ';' = some .semicolon := rfl
  have htext : (";".intercalate (program.map render)).toList =
      [';'].intercalate (program.map (·.render.toList)) := by
    rw [String.toList_intercalate, List.map_map]
    rfl
  rw [htext]
  by_cases hne : program = []
  · subst hne
    refine cutsInto_nil.imp ?_
    rintro _ rfl
    exact ⟨[], .empty semicolons_nil, rfl⟩
  refine cutsInto_intercalate hmark (List.forall_mem_nil _) ?_ ?_ hne h
  · rintro n us ⟨m, hm, hbare⟩
    exact ⟨[m], .single hm, congrArg ([·]) hbare⟩
  · rintro n ns p us vs ⟨m, hm, hbare⟩ ⟨ms, hms, hbares⟩
    exact ⟨m :: ms, .cons hm p hms, by rw [bareAll, bareAll, hbare, hbares]⟩

/-- **What is written for a program is read back as the program**, its places and memo keys aside: the
    text can be cut into tokens, and they are accepted by a reader that has levels for the depth of
    the trees. -/
theorem parse_scan_render (limit : Nat) (file : Option String) {program : Program}
    (hname : ∀ n ∈ program, n.Every Named 1) (hdepth : ∀ n ∈ program, n.depth ≤ limit) :
    ∃ ts program', Token.scan (";".intercalate (program.map render)) file = .ok ts ∧
      parse limit ts = .ok program' ∧ program'.map bare = program.map bare := by
  have heach : ∀ n ∈ program, CutsInto (Derives limit 1 n) n.render.toList := by
    intro n hn
    have hdepth := hdepth n hn
    exact cutsInto_render n (hname n hn) (by omega)
  obtain ⟨us, ⟨program', hprogram, hbare⟩, hcut⟩ :=
    cutsInto_program heach ⟨file, 1, 1⟩ [] [] (fun _ h => by cases h) (.stop _)
  rw [List.append_nil, List.append_nil] at hcut
  have hscan := scanFrom_of_cuts hcut
    ((⟨file, 1, 1⟩ : Place).after (";".intercalate (program.map render)).toList)
  rw [bareAll_eq_map, bareAll_eq_map] at hbare
  exact ⟨_, program', hscan, parse_of_derivesProgram hprogram _, hbare⟩

/-- Two statements with a string that needs escapes, the smallest integer and a name that starts like
    a keyword. -/
def escapedProgram : Program :=
  [.call "f_1" default
    [.literal (.string "it's \\n\n\x00\x22") default, .literal (.integer Int64.minValue) default,
     .call "null_" default [] none] none,
   .literal .null default]

theorem parse_scan_render_escaped :
    (∀ n ∈ escapedProgram, n.Every Named 1) ∧ (∀ n ∈ escapedProgram, n.depth ≤ 2) ∧
      ";".intercalate (escapedProgram.map render) =
        "f_1('it\\'s \\\\n\\n\x00\x22', -9223372036854775808, null_());null" ∧
      ∃ ts program', Token.scan (";".intercalate (escapedProgram.map render)) none = .ok ts ∧
        parse 2 ts = .ok program' ∧ program'.map bare = escapedProgram.map bare := by
  have houter : IsName ['f', '_', '1'] := ⟨'f', ['_', '1'], rfl, rfl, List.all_eq_true.1 rfl⟩
  have hinner : IsName ['n', 'u', 'l', 'l', '_'] :=
    ⟨'n', ['u', 'l', 'l', '_'], rfl, rfl, List.all_eq_true.1 rfl⟩
  have hname : ∀ n ∈ escapedProgram, n.Every Named 1 := by
    simp [escapedProgram, Every, EveryIn, Named, name?, houter, hinner]
  have hdepth : ∀ n ∈ escapedProgram, n.depth ≤ 2 := by
    decide
  exact ⟨hname, hdepth, by decide, parse_scan_render 2 none hname hdepth⟩

end Node

end CallScript
