import CallScript.Proofs.Node.Grammar
import CallScript.Proofs.Text.Decimal

/-!
# The productions of the grammar

The grammar once more, as productions over tokens that build the tree as they go:

    program    = ';'* [ statements ';'* ]
    statements = expr (';'+ expr)*
    expr       = primary ('[' expr ']')*
    primary    = string | integer | null | ident '(' [ arguments ] ')' | '(' expr ')'
    arguments  = expr (',' expr)*

Each derivation stands at a level: a statement at level one, and what stands in brackets, in
parentheses or among arguments one level deeper than the expression around it. No level exceeds the
limit. An index is a call at the place of its bracket, and parentheses leave nothing in the tree.

* `Spells.derives` and `DerivesExpr.spells`: the productions derive exactly the expressions that are
  written within the levels of the reader, with their trees;
* `parse_eq_ok_iff_derives`: the reader accepts exactly what derives from `program`, and what it
  builds is the program of the derivation; so there is at most one.
-/

namespace CallScript

variable {limit : Nat}

/-! ## 1. Productions -/

namespace Node

mutual

/-- `expr = primary ('[' expr ']')*` -/
inductive DerivesExpr (limit : Nat) : Nat → List Token → Node → Prop
  | expr {d : Nat} {ts us : List Token} {n m : Node} (hd : d ≤ limit)
      (hp : DerivesPrimary limit d ts n) (hi : DerivesIndexes limit d n us m) :
      DerivesExpr limit d (ts ++ us) m

/-- `('[' expr ']')*` behind an expression, whose tree goes into the tree of the first index. -/
inductive DerivesIndexes (limit : Nat) : Nat → Node → List Token → Node → Prop
  | nil {d : Nat} (n : Node) : DerivesIndexes limit d n [] n
  | index {d : Nat} {us vs : List Token} {n i m : Node} (p q : Place)
      (hi : DerivesExpr limit (d + 1) us i)
      (hs : DerivesIndexes limit d (.call indexFunction p [n, i] none) vs m) :
      DerivesIndexes limit d n (⟨.leftBracket, p⟩ :: (us ++ ⟨.rightBracket, q⟩ :: vs)) m

/-- `primary = string | integer | null | ident '(' [arguments] ')' | '(' expr ')'` -/
inductive DerivesPrimary (limit : Nat) : Nat → List Token → Node → Prop
  | string {d : Nat} (s : String) (p : Place) :
      DerivesPrimary limit d [⟨.string s, p⟩] (.literal (.string s) p)
  | integer {d : Nat} (written : String) (n : Int64) (p : Place) (h : Decimal.Writes written n) :
      DerivesPrimary limit d [⟨.integer written, p⟩] (.literal (.integer n) p)
  | null {d : Nat} (p : Place) : DerivesPrimary limit d [⟨.null, p⟩] (.literal .null p)
  | callEmpty {d : Nat} (name : String) (p q q' : Place) :
      DerivesPrimary limit d [⟨.ident name, p⟩, ⟨.leftParen, q⟩, ⟨.rightParen, q'⟩]
        (.call name p [] none)
  | call {d : Nat} {ts : List Token} {args : List Node} (name : String) (p q q' : Place)
      (ha : DerivesArguments limit (d + 1) ts args) :
      DerivesPrimary limit d
        (⟨.ident name, p⟩ :: ⟨.leftParen, q⟩ :: (ts ++ [⟨.rightParen, q'⟩]))
        (.call name p args none)
  | group {d : Nat} {ts : List Token} {n : Node} (p q : Place)
      (h : DerivesExpr limit (d + 1) ts n) :
      DerivesPrimary limit d (⟨.leftParen, p⟩ :: (ts ++ [⟨.rightParen, q⟩])) n

/-- `arguments = expr (',' expr)*` -/
inductive DerivesArguments (limit : Nat) : Nat → List Token → List Node → Prop
  | last {d : Nat} {ts : List Token} {n : Node} (h : DerivesExpr limit d ts n) :
      DerivesArguments limit d ts [n]
  | next {d : Nat} {ts us : List Token} {n : Node} {ns : List Node} (q : Place)
      (h : DerivesExpr limit d ts n) (hs : DerivesArguments limit d us ns) :
      DerivesArguments limit d (ts ++ ⟨.comma, q⟩ :: us) (n :: ns)

end

/-- `';'*` -/
def Semicolons (ts : List Token) : Prop := ∀ t ∈ ts, t.kind = .semicolon

/-- `statements = expr (';'+ expr)*`, where a statement is at level one. -/
inductive DerivesStatements (limit : Nat) : List Token → Program → Prop
  | last {ts : List Token} {n : Node} (h : DerivesExpr limit 1 ts n) :
      DerivesStatements limit ts [n]
  | next {ts between us : List Token} {n : Node} {p : Program} (h : DerivesExpr limit 1 ts n)
      (hne : between ≠ []) (hb : Semicolons between) (hs : DerivesStatements limit us p) :
      DerivesStatements limit (ts ++ (between ++ us)) (n :: p)

/-- `program = ';'* [statements ';'*]` -/
inductive DerivesProgram (limit : Nat) : List Token → Program → Prop
  | empty {ts : List Token} (h : Semicolons ts) : DerivesProgram limit ts []
  | statements {before ts after : List Token} {p : Program} (hb : Semicolons before)
      (hs : DerivesStatements limit ts p) (ha : Semicolons after) :
      DerivesProgram limit (before ++ (ts ++ after)) p

/-- One more index may stand behind the indexes of an expression. -/
theorem DerivesIndexes.snoc : ∀ {d : Nat} {n m : Node} {us vs : List Token} {i : Node},
    DerivesIndexes limit d n us m → ∀ p q : Place, DerivesExpr limit (d + 1) vs i →
    DerivesIndexes limit d n (us ++ ⟨.leftBracket, p⟩ :: (vs ++ [⟨.rightBracket, q⟩]))
      (.call indexFunction p [m, i] none)
  | _, _, _, _, _, _, .nil n, p, q, h => .index p q h (.nil _)
  | _, _, _, _, _, _, .index p' q' hi hs, p, q, h => by
      rw [List.cons_append, List.append_assoc, List.cons_append]
      exact .index p' q' hi (hs.snoc p q h)

end Node

open Node

/-! ## 2. What is written derives -/

namespace Written

/-- The integers among the tokens are numerals. -/
def Numerals (ts : List Token) : Prop :=
  ∀ t ∈ ts, ∀ written, t.kind = .integer written → Decimal.Numeral written

theorem Numerals.of_append {ts us : List Token} (h : Numerals (ts ++ us)) :
    Numerals ts ∧ Numerals us := List.forall_mem_append.1 h

theorem Numerals.of_cons {t : Token} {ts : List Token} (h : Numerals (t :: ts)) : Numerals ts :=
  (List.forall_mem_cons.1 h).2

mutual

/-- **An expression that is written within the levels derives**, with its tree. -/
theorem Spells.derives : ∀ {e : Written} {ts : List Token}, Spells e ts → Numerals ts →
    ∀ {d : Nat}, d + e.levels ≤ limit + 1 → DerivesExpr limit d ts e.node
  | _, _, .string s p, _, d, h => .expr (Nat.le_of_succ_le_succ h) (.string s p) (.nil _)
  | _, _, .integer written n p hn, hnum, d, h => by
      have hw := hnum _ List.mem_cons_self written rfl
      exact .expr (Nat.le_of_succ_le_succ h)
        (.integer written n p ((Decimal.parse?_eq_some_iff hw).1 hn)) (.nil _)
  | _, _, .null p, _, d, h => .expr (Nat.le_of_succ_le_succ h) (.null p) (.nil _)
  | .group e, _, .group p q he, hnum, d, h => by
      simp only [levels] at h
      have hin := Spells.derives he hnum.of_cons.of_append.1 (d := d + 1) (by omega)
      have hout := DerivesExpr.expr (d := d) (by omega) (.group p q hin) (.nil _)
      rwa [List.append_nil] at hout
  | _, _, .callEmpty name p q q', _, d, h => by
      have hd : d ≤ limit := Nat.le_of_succ_le_succ h
      have hout := DerivesExpr.expr hd (.callEmpty name p q q') (.nil _)
      rwa [List.append_nil] at hout
  | _, _, @Spells.call es e us ts name p q q' hs he, hnum, d, h => by
      obtain ⟨hus, hts⟩ := hnum.of_cons.of_cons.of_append
      have hall : ∀ a ∈ es ++ [e], a.levels ≤ limit - d :=
        levelsAll_le_iff.1 (by simp only [levels] at h; omega)
      have hd : d ≤ limit := by simp only [levels] at h; omega
      have hlevel : ∀ a ∈ es ++ [e], d + 1 + a.levels ≤ limit + 1 := fun a ha => by
        have := hall a ha
        omega
      have hlast := Spells.derives he hts.of_append.1
        (hlevel e (List.mem_append_right _ (List.mem_singleton.2 rfl)))
      have hargs := SpellsBefore.derives hs hus
        (fun a ha => hlevel a (List.mem_append_left _ ha)) (.last hlast)
      have hout := DerivesExpr.expr hd (.call name p q q' hargs) (.nil _)
      rw [List.append_nil, List.append_assoc] at hout
      rw [node, nodes_append]
      exact hout
  | .index s _ i, _, .index p q hs hi, hnum, d, h => by
      simp only [levels] at h
      obtain ⟨hts, hus⟩ := hnum.of_append
      have hsubject := Spells.derives hs hts (d := d) (by omega)
      have hposition := Spells.derives hi hus.of_cons.of_append.1 (d := d + 1) (by omega)
      cases hsubject with
      | expr hd hp hindexes =>
          rw [List.append_assoc]
          exact .expr hd hp (hindexes.snoc p q hposition)

/-- Expressions with commas behind them may stand in front of arguments. -/
theorem SpellsBefore.derives : ∀ {es : List Written} {us : List Token}, SpellsBefore es us →
    Numerals us → ∀ {d : Nat}, (∀ e ∈ es, d + e.levels ≤ limit + 1) →
    ∀ {ts : List Token} {ns : List Node}, DerivesArguments limit d ts ns →
      DerivesArguments limit d (us ++ ts) (nodes es ++ ns)
  | _, _, .nil, _, _, _, _, _, ha => ha
  | _, _, @SpellsBefore.snoc es e us ts q hs he, hnum, d, hl, vs, ns, ha => by
      obtain ⟨hus, hts⟩ := hnum.of_append
      have hfirst := Spells.derives he hts.of_append.1
        (hl e (List.mem_append_right _ (List.mem_singleton.2 rfl)))
      have hall := SpellsBefore.derives hs hus (fun a ha => hl a (List.mem_append_left _ ha))
        (.next q hfirst ha)
      rw [nodes_append, List.append_assoc, List.append_assoc, List.append_assoc]
      exact hall

end

end Written

/-! ## 3. What derives is written -/

namespace Node

open Written

mutual

/-- **What derives is an expression that is written within the levels**, with its tree. -/
theorem DerivesExpr.spells : ∀ {d : Nat} {ts : List Token} {n : Node},
    DerivesExpr limit d ts n → ∃ e, Spells e ts ∧ e.node = n ∧ d + e.levels ≤ limit + 1
  | _, _, _, .expr hd hp hi => by
      obtain ⟨s, hs, hn, hl⟩ := DerivesPrimary.spells hp hd
      exact DerivesIndexes.spells hi hs hn hl

theorem DerivesIndexes.spells : ∀ {d : Nat} {n m : Node} {us : List Token},
    DerivesIndexes limit d n us m → ∀ {s : Written} {ts : List Token}, Spells s ts →
    s.node = n → d + s.levels ≤ limit + 1 →
    ∃ e, Spells e (ts ++ us) ∧ e.node = m ∧ d + e.levels ≤ limit + 1
  | _, _, _, _, .nil n, s, ts, hs, hn, hl => ⟨s, by rwa [List.append_nil], hn, hl⟩
  | d, _, _, _, @DerivesIndexes.index _ _ us vs n i m p q hi hrest, s, ts, hs, hn, hl => by
      obtain ⟨e, he, hi', hle⟩ := DerivesExpr.spells hi
      have hlevels : d + (Written.index s p e).levels ≤ limit + 1 := by
        simp only [levels]
        omega
      obtain ⟨e', he', hnode, hl'⟩ := DerivesIndexes.spells hrest (.index p q hs he)
        (by rw [node, hn, hi']) hlevels
      rw [List.append_assoc, List.cons_append, List.append_assoc] at he'
      exact ⟨e', he', hnode, hl'⟩

theorem DerivesPrimary.spells : ∀ {d : Nat} {ts : List Token} {n : Node},
    DerivesPrimary limit d ts n → d ≤ limit →
    ∃ e, Spells e ts ∧ e.node = n ∧ d + e.levels ≤ limit + 1
  | _, _, _, .string s p, hd => ⟨_, .string s p, rfl, Nat.succ_le_succ hd⟩
  | _, _, _, .integer written n p h, hd =>
      ⟨_, .integer written n p (Decimal.parse?_of_writes h), rfl, Nat.succ_le_succ hd⟩
  | _, _, _, .null p, hd => ⟨_, .null p, rfl, Nat.succ_le_succ hd⟩
  | _, _, _, .callEmpty name p q q', hd =>
      ⟨_, .callEmpty name p q q', rfl, Nat.succ_le_succ hd⟩
  | d, _, _, .call name p q q' ha, hd => by
      obtain ⟨es, e, us, vs, hs, he, rfl, rfl, hl⟩ :=
        DerivesArguments.spells ha .nil fun _ h => (List.not_mem_nil h).elim
      have hall : levelsAll (es ++ [e]) ≤ limit - d := levelsAll_le_iff.2 fun a ha => by
        have := hl a ha
        omega
      refine ⟨.call name p (es ++ [e]), ?_, by rw [node], ?_⟩
      · rw [List.append_assoc]
        exact .call name p q q' hs he
      simp only [levels]
      omega
  | d, _, _, .group p q h, hd => by
      obtain ⟨e, he, rfl, hl⟩ := DerivesExpr.spells h
      refine ⟨.group e, .group p q he, by rw [node], ?_⟩
      simp only [levels]
      omega

/-- The arguments that are left go behind those that were read: all but the last one have a comma
    behind them. -/
theorem DerivesArguments.spells : ∀ {d : Nat} {ts : List Token} {ns : List Node},
    DerivesArguments limit d ts ns → ∀ {es : List Written} {us : List Token},
    SpellsBefore es us → (∀ a ∈ es, d + a.levels ≤ limit + 1) →
    ∃ es' e us' vs, SpellsBefore es' us' ∧ Spells e vs ∧ us ++ ts = us' ++ vs ∧
      nodes es ++ ns = nodes (es' ++ [e]) ∧ ∀ a ∈ es' ++ [e], d + a.levels ≤ limit + 1
  | d, ts, _, .last h, es, us, hs, hl => by
      obtain ⟨e, he, rfl, hle⟩ := DerivesExpr.spells h
      exact ⟨es, e, us, ts, hs, he, rfl, (nodes_append es [e]).symm,
        List.forall_mem_append.2 ⟨hl, List.forall_mem_singleton.2 hle⟩⟩
  | d, _, _, @DerivesArguments.next _ _ ts vs n ns q h hrest, es, us, hs, hl => by
      obtain ⟨e, he, rfl, hle⟩ := DerivesExpr.spells h
      obtain ⟨es', e', us', vs', hs', he', htokens, hnodes, hl'⟩ :=
        DerivesArguments.spells hrest (.snoc q hs he)
          (List.forall_mem_append.2 ⟨hl, List.forall_mem_singleton.2 hle⟩)
      refine ⟨es', e', us', vs', hs', he', ?_, ?_, hl'⟩
      · rw [← htokens, List.append_assoc, List.append_assoc]
        rfl
      · rw [← hnodes, nodes_append, List.append_assoc]
        rfl

end

end Node

/-! ## 4. Programs -/

namespace Written

/-- Semicolons in front of a program are read over. -/
theorem SpellsProgram.behind {ts : List Token} (h : Semicolons ts) {es : List Written}
    {us : List Token} (hs : SpellsProgram es us) : SpellsProgram es (ts ++ us) := by
  induction ts with
  | nil => exact hs
  | cons t ts ih =>
      obtain ⟨hkind, hrest⟩ := List.forall_mem_cons.1 h
      obtain ⟨kind, p⟩ := t
      obtain rfl : kind = .semicolon := hkind
      exact .skip p (ih hrest)

/-- The first semicolon behind a statement separates it from what follows. -/
theorem SpellsProgram.separate {between : List Token} (hb : Semicolons between)
    (hne : between ≠ []) {e : Written} {es : List Written} {ts us : List Token} (h : Spells e ts)
    (hs : SpellsProgram es us) : SpellsProgram (e :: es) (ts ++ (between ++ us)) := by
  cases between with
  | nil => exact absurd rfl hne
  | cons t between =>
      obtain ⟨hkind, hrest⟩ := List.forall_mem_cons.1 hb
      obtain ⟨kind, p⟩ := t
      obtain rfl : kind = .semicolon := hkind
      exact .next p h (hs.behind hrest)

/-- No end mark stands among the tokens. -/
def Endless (ts : List Token) : Prop := ∀ t ∈ ts, t.kind ≠ .eof

section

variable {ts us : List Token}

theorem Endless.nil : Endless [] := fun _ h => (List.not_mem_nil h).elim

theorem Endless.cons {t : Token} (ht : t.kind ≠ .eof) (h : Endless ts) : Endless (t :: ts) :=
  List.forall_mem_cons.2 ⟨ht, h⟩

theorem Endless.append (h : Endless ts) (h' : Endless us) : Endless (ts ++ us) :=
  List.forall_mem_append.2 ⟨h, h'⟩

theorem Endless.of_cons {t : Token} (h : Endless (t :: ts)) : Endless ts :=
  (List.forall_mem_cons.1 h).2

theorem Endless.of_append (h : Endless (ts ++ us)) : Endless ts ∧ Endless us :=
  List.forall_mem_append.1 h

/-- Where nothing is read on from and no end mark stands, there is nothing. -/
theorem Endless.eq_nil_of_ends (h : Endless ts) {p : Place} (hs : Ends (ts ++ [⟨.eof, p⟩])) :
    ts = [] := by
  cases ts with
  | nil => rfl
  | cons t ts =>
      rcases hs with hs | ⟨q, us, hs⟩
      · cases hs
      · cases hs
        exact absurd rfl (h _ List.mem_cons_self)

end

mutual

/-- The end mark is no part of an expression. -/
theorem Spells.endless : ∀ {e : Written} {ts : List Token}, Spells e ts → Endless ts
  | _, _, .string _ _ => .cons nofun .nil
  | _, _, .integer _ _ _ _ => .cons nofun .nil
  | _, _, .null _ => .cons nofun .nil
  | _, _, .group _ _ h => .cons nofun (h.endless.append (.cons nofun .nil))
  | _, _, .callEmpty _ _ _ _ => .cons nofun (.cons nofun (.cons nofun .nil))
  | _, _, .call _ _ _ _ hs h =>
      .cons nofun (.cons nofun (hs.endless.append (h.endless.append (.cons nofun .nil))))
  | _, _, .index _ _ hs hi =>
      hs.endless.append (.cons nofun (hi.endless.append (.cons nofun .nil)))

theorem SpellsBefore.endless : ∀ {es : List Written} {us : List Token}, SpellsBefore es us →
    Endless us
  | _, _, .nil => .nil
  | _, _, .snoc _ hs h => hs.endless.append (h.endless.append (.cons nofun .nil))

end

end Written

namespace Node

open Written

/-- Statements that derive are written in front of what may end a program. -/
theorem DerivesStatements.spells {ts : List Token} {program : Program}
    (h : DerivesStatements limit ts program) {after : List Token} (ha : Semicolons after)
    (p : Place) : ∃ es, SpellsProgram es (ts ++ (after ++ [⟨.eof, p⟩])) ∧ nodes es = program ∧
      ∀ e ∈ es, e.levels ≤ limit := by
  have hstop : Ends [⟨.eof, p⟩] := Or.inr ⟨p, [], rfl⟩
  induction h with
  | last h =>
      obtain ⟨e, he, rfl, hl⟩ := h.spells
      refine ⟨[e], ?_, rfl, List.forall_mem_singleton.2 (by omega)⟩
      by_cases hne : after = []
      · rw [hne]
        exact .last he hstop
      · exact .separate ha hne he (.stop hstop)
  | next h hne hb _ ih =>
      obtain ⟨e, he, rfl, hl⟩ := h.spells
      obtain ⟨es, hes, rfl, hls⟩ := ih
      refine ⟨e :: es, ?_, rfl, List.forall_mem_cons.2 ⟨by omega, hls⟩⟩
      rw [List.append_assoc, List.append_assoc]
      exact .separate hb hne he hes

/-- A program that derives is written in front of the end mark. -/
theorem DerivesProgram.spells {ts : List Token} {program : Program}
    (h : DerivesProgram limit ts program) (p : Place) :
    ∃ es, SpellsProgram es (ts ++ [⟨.eof, p⟩]) ∧ nodes es = program ∧
      ∀ e ∈ es, e.levels ≤ limit := by
  cases h with
  | empty h =>
      exact ⟨[], .behind h (.stop (Or.inr ⟨p, [], rfl⟩)), rfl, fun _ h => (List.not_mem_nil h).elim⟩
  | statements hb hs ha =>
      obtain ⟨es, hes, rfl, hl⟩ := hs.spells ha p
      refine ⟨es, ?_, rfl, hl⟩
      rw [List.append_assoc, List.append_assoc]
      exact hes.behind hb

/-- **What derives is accepted**, and the reader builds the program of the derivation. -/
theorem parse_of_derivesProgram {ts : List Token} {program : Program}
    (h : DerivesProgram limit ts program) (p : Place) :
    parse limit (ts ++ [⟨.eof, p⟩]) = .ok program := by
  obtain ⟨es, hes, rfl, hl⟩ := h.spells p
  exact parse_of_spellsProgram hes hl

/-- A semicolon may stand in front of a program. -/
theorem DerivesProgram.skip {ts : List Token} {program : Program}
    (h : DerivesProgram limit ts program) (p : Place) :
    DerivesProgram limit (⟨.semicolon, p⟩ :: ts) program := by
  cases h with
  | empty h => exact .empty (List.forall_mem_cons.2 ⟨rfl, h⟩)
  | statements hb hs ha => exact .statements (List.forall_mem_cons.2 ⟨rfl, hb⟩) hs ha

theorem semicolons_nil : Semicolons [] := fun _ h => (List.not_mem_nil h).elim

/-- A statement is a program. -/
theorem DerivesProgram.single {ts : List Token} {n : Node} (h : DerivesExpr limit 1 ts n) :
    DerivesProgram limit ts [n] := by
  have hprogram := DerivesProgram.statements semicolons_nil (.last h) semicolons_nil
  rwa [List.append_nil, List.nil_append] at hprogram

/-- A statement may stand in front of a program, with a semicolon between them. -/
theorem DerivesProgram.cons {ts us : List Token} {n : Node} {program : Program}
    (h : DerivesExpr limit 1 ts n) (p : Place) (hs : DerivesProgram limit us program) :
    DerivesProgram limit (ts ++ ⟨.semicolon, p⟩ :: us) (n :: program) := by
  cases hs with
  | empty hs =>
      exact .statements semicolons_nil (.last h) (List.forall_mem_cons.2 ⟨rfl, hs⟩)
  | @statements before vs after _ hb hs ha =>
      have hne : (⟨.semicolon, p⟩ :: before : List Token) ≠ [] := List.cons_ne_nil _ _
      have hall := DerivesStatements.next h hne (List.forall_mem_cons.2 ⟨rfl, hb⟩) hs
      have hprogram := DerivesProgram.statements semicolons_nil hall ha
      rw [List.nil_append, List.append_assoc, List.append_assoc] at hprogram
      exact hprogram

/-- What is written in front of the end mark derives, if it is within the levels. -/
theorem derivesProgram_of_spells {es : List Written} {ts : List Token} {p : Place}
    (h : SpellsProgram es (ts ++ [⟨.eof, p⟩])) (hend : Endless ts) (hnum : Numerals ts)
    (hl : ∀ e ∈ es, e.levels ≤ limit) : DerivesProgram limit ts (nodes es) := by
  generalize hvs : ts ++ [⟨.eof, p⟩] = vs at h
  induction h generalizing ts with
  | stop hstop =>
      subst hvs
      rw [hend.eq_nil_of_ends hstop]
      exact .empty semicolons_nil
  | skip q _ ih =>
      cases ts with
      | nil => cases hvs
      | cons t ts =>
          cases hvs
          exact (ih hend.of_cons hnum.of_cons hl rfl).skip q
  | @last e us ws he hstop =>
      -- the end mark is neither within the statement nor among the tokens in front of it
      obtain rfl : us = ts := by
        rcases List.append_eq_append_iff.1 hvs with ⟨mid, rfl, hmid⟩ | ⟨mid, rfl, rfl⟩
        · cases mid with
          | nil => exact List.append_nil ts
          | cons t mid =>
              obtain rfl : ⟨.eof, p⟩ = t := (List.cons.inj hmid).1
              exact absurd rfl (he.endless _ (List.mem_append_right _ List.mem_cons_self))
        · rw [hend.of_append.2.eq_nil_of_ends hstop, List.append_nil]
      have hle := hl e List.mem_cons_self
      exact .single (he.derives hnum (by omega))
  | @next e es us ws q he _ ih =>
      obtain ⟨hle, hls⟩ := List.forall_mem_cons.1 hl
      obtain ⟨vs, rfl, rfl⟩ : ∃ vs, ts = us ++ ⟨.semicolon, q⟩ :: vs ∧ ws = vs ++ [⟨.eof, p⟩] := by
        rcases List.append_eq_append_iff.1 hvs with ⟨mid, -, hmid⟩ | ⟨mid, rfl, hmid⟩
        · cases mid with
          | nil => cases hmid
          | cons t mid => simp at hmid
        · cases mid with
          | nil => cases hmid
          | cons t mid =>
              cases hmid
              exact ⟨mid, rfl, rfl⟩
      obtain ⟨hus, hvs'⟩ := hnum.of_append
      exact .cons (he.derives hus (by omega)) q
        (ih hend.of_append.2.of_cons hvs'.of_cons hls rfl)

/-- **The reader accepts exactly what derives from `program`**, within its levels, and it builds the
    program of the derivation. -/
theorem parse_eq_ok_iff_derives (limit : Nat) {ts : List Token} (hend : Endless ts)
    (hnum : Numerals ts) (p : Place) (program : Program) :
    parse limit (ts ++ [⟨.eof, p⟩]) = .ok program ↔ DerivesProgram limit ts program := by
  constructor
  · intro h
    obtain ⟨es, hes, rfl, hl⟩ := spellsProgram_of_parse h
    exact derivesProgram_of_spells hes hend hnum hl
  · exact fun h => parse_of_derivesProgram h p

/-- The tokens of `;f(-7, (g()))['k'];;`, where only the bracket has a place of its own. -/
def indexedCall : List Token :=
  [⟨.semicolon, default⟩, ⟨.ident "f", default⟩, ⟨.leftParen, default⟩,
    ⟨.integer "-7", default⟩, ⟨.comma, default⟩, ⟨.leftParen, default⟩, ⟨.ident "g", default⟩,
    ⟨.leftParen, default⟩, ⟨.rightParen, default⟩, ⟨.rightParen, default⟩, ⟨.rightParen, default⟩,
    ⟨.leftBracket, ⟨none, 1, 14⟩⟩, ⟨.string "k", default⟩, ⟨.rightBracket, default⟩,
    ⟨.semicolon, default⟩, ⟨.semicolon, default⟩]

/-- The tree of `;f(-7, (g()))['k'];;`. -/
def indexedCallNode : Node :=
  .call "array_get" ⟨none, 1, 14⟩
    [.call "f" default [.literal (.integer (-7)) default, .call "g" default [] none] none,
     .literal (.string "k") default] none

/-- Parentheses count as a level and leave nothing in the tree: at three levels the tokens derive, and
    at two levels they do not. -/
theorem parse_eq_ok_iff_derives_indexedCall :
    Endless indexedCall ∧ Numerals indexedCall ∧
      DerivesProgram 3 indexedCall [indexedCallNode] ∧
      ¬ DerivesProgram 2 indexedCall [indexedCallNode] := by
  have hend : Endless indexedCall := by
    unfold Endless
    decide
  have hnum : Numerals indexedCall := by
    have hseven : Decimal.Numeral "-7" := ⟨['7'], by simp [Decimal.Digits], Or.inr rfl⟩
    simp [Numerals, indexedCall, hseven]
  refine ⟨hend, hnum, (parse_eq_ok_iff_derives 3 hend hnum default _).1 rfl, fun h => ?_⟩
  cases (parse_eq_ok_iff_derives 2 hend hnum default _).2 h

end Node

end CallScript
