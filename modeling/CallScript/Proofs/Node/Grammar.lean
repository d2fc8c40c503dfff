import CallScript.Node.Parser
import CallScript.Proofs.Node.Levels

/-!
# The grammar of programs

What a program looks like in tokens, apart from any way of reading it. An expression as it is written
(`Written`) keeps what the tree that is built from it forgets: which parentheses stood around it, and
whether an array was indexed with brackets or by a call.

* `Written.node` is the tree, `Written.levels` the levels that the reader counts, and
  `Written.height` the levels that the tree has; parentheses count for the reader only, and the
  subject of an index counts for the tree only.
* `height_le_levels`: where no index is written, the tree is no higher than the reader counts.
* `Written.Spells` says which tokens write an expression, `SpellsProgram` which write a program.
* `parse_of_spellsProgram` and `spellsProgram_of_parse`: the reader takes exactly the programs whose
  expressions keep to its levels, and it builds their trees.
-/

namespace CallScript

/-! ## 1. Expressions as they are written -/

/-- An expression as it is written, with the places that its tree keeps. -/
inductive Written
  | literal (v : Literal) (p : Place)
  | group (e : Written)
  | call (name : String) (p : Place) (args : List Written)
  | index (subject : Written) (p : Place) (position : Written)

namespace Written

mutual

/-- The tree of an expression. -/
def node : Written → Node
  | .literal v p => .literal v p
  | .group e => e.node
  | .call name p args => .call name p (nodes args) none
  | .index s p i => .call Node.indexFunction p [s.node, i.node] none

def nodes : List Written → List Node
  | [] => []
  | e :: es => e.node :: nodes es

end

mutual

/-- The levels of an expression as the reader counts them. -/
def levels : Written → Nat
  | .literal _ _ => 1
  | .group e => e.levels + 1
  | .call _ _ args => levelsAll args + 1
  | .index s _ i => max s.levels (i.levels + 1)

def levelsAll : List Written → Nat
  | [] => 0
  | e :: es => max e.levels (levelsAll es)

end

mutual

/-- The levels of the tree of an expression. -/
def height : Written → Nat
  | .literal _ _ => 1
  | .group e => e.height
  | .call _ _ args => heightAll args + 1
  | .index s _ i => max s.height i.height + 1

def heightAll : List Written → Nat
  | [] => 0
  | e :: es => max e.height (heightAll es)

end

theorem nodes_eq_map (es : List Written) : nodes es = es.map node := by
  induction es with
  | nil => rfl
  | cons e es ih => rw [nodes, ih, List.map_cons]

theorem nodes_append (es fs : List Written) : nodes (es ++ fs) = nodes es ++ nodes fs := by
  rw [nodes_eq_map, nodes_eq_map, nodes_eq_map, List.map_append]

theorem levelsAll_concat (es : List Written) (e : Written) :
    levelsAll (es ++ [e]) = max (levelsAll es) e.levels := by
  induction es with
  | nil => exact Nat.max_comm _ _
  | cons a es ih =>
      show max a.levels (levelsAll (es ++ [e])) = max (max a.levels (levelsAll es)) e.levels
      rw [ih, Nat.max_assoc]

theorem heightAll_concat (es : List Written) (e : Written) :
    heightAll (es ++ [e]) = max (heightAll es) e.height := by
  induction es with
  | nil => exact Nat.max_comm _ _
  | cons a es ih =>
      show max a.height (heightAll (es ++ [e])) = max (max a.height (heightAll es)) e.height
      rw [ih, Nat.max_assoc]

theorem levelsAll_le_iff {es : List Written} {b : Nat} :
    levelsAll es ≤ b ↔ ∀ e ∈ es, e.levels ≤ b := by
  induction es with
  | nil => simp [levelsAll]
  | cons e es ih => rw [levelsAll, Nat.max_le, ih, List.forall_mem_cons]

mutual

/-- The height is the depth of the tree. -/
theorem depth_node : ∀ e : Written, e.node.depth = e.height
  | .literal _ _ => rfl
  | .group e => depth_node e
  | .call _ _ args => congrArg (· + 1) (depthAll_nodes args)
  | .index s _ i => by
      show max s.node.depth (max i.node.depth 0) + 1 = max s.height i.height + 1
      rw [depth_node s, depth_node i, Nat.max_zero]

theorem depthAll_nodes : ∀ es : List Written, Node.depthAll (nodes es) = heightAll es
  | [] => rfl
  | e :: es => by
      show max e.node.depth (Node.depthAll (nodes es)) = max e.height (heightAll es)
      rw [depth_node e, depthAll_nodes es]

end

mutual

/-- What is read from a script has no memo keys, at whatever level it stands. -/
theorem every_unkeyed_node : ∀ (e : Written) (d : Nat),
    e.node.Every (fun _ m => m.memo? = none) d
  | .literal _ _, _ => rfl
  | .group e, d => every_unkeyed_node e d
  | .call _ _ args, d => ⟨rfl, everyIn_unkeyed_nodes args (d + 1)⟩
  | .index s _ i, d =>
      ⟨rfl, every_unkeyed_node s (d + 1), every_unkeyed_node i (d + 1), trivial⟩

theorem everyIn_unkeyed_nodes : ∀ (es : List Written) (d : Nat),
    Node.EveryIn (fun _ m => m.memo? = none) d (nodes es)
  | [], _ => trivial
  | e :: es, d => ⟨every_unkeyed_node e d, everyIn_unkeyed_nodes es d⟩

end

/-! ## 2. Tokens -/

mutual

/-- The tokens write the expression. -/
inductive Spells : Written → List Token → Prop
  | string (s : String) (p : Place) : Spells (.literal (.string s) p) [⟨.string s, p⟩]
  | integer (written : String) (n : Int64) (p : Place) (h : Decimal.parse? written = some n) :
      Spells (.literal (.integer n) p) [⟨.integer written, p⟩]
  | null (p : Place) : Spells (.literal .null p) [⟨.null, p⟩]
  | group {e : Written} {ts : List Token} (p q : Place) (h : Spells e ts) :
      Spells (.group e) (⟨.leftParen, p⟩ :: (ts ++ [⟨.rightParen, q⟩]))
  | callEmpty (name : String) (p q q' : Place) :
      Spells (.call name p []) [⟨.ident name, p⟩, ⟨.leftParen, q⟩, ⟨.rightParen, q'⟩]
  | call {es : List Written} {e : Written} {us ts : List Token} (name : String) (p q q' : Place)
      (hs : SpellsBefore es us) (h : Spells e ts) :
      Spells (.call name p (es ++ [e]))
        (⟨.ident name, p⟩ :: ⟨.leftParen, q⟩ :: (us ++ (ts ++ [⟨.rightParen, q'⟩])))
  | index {s i : Written} {ts us : List Token} (p q : Place) (hs : Spells s ts)
      (hi : Spells i us) :
      Spells (.index s p i) (ts ++ ⟨.leftBracket, p⟩ :: (us ++ [⟨.rightBracket, q⟩]))

/-- The tokens write the expressions, each of them with a comma behind it. -/
inductive SpellsBefore : List Written → List Token → Prop
  | nil : SpellsBefore [] []
  | snoc {es : List Written} {e : Written} {us ts : List Token} (q : Place)
      (hs : SpellsBefore es us) (h : Spells e ts) :
      SpellsBefore (es ++ [e]) (us ++ (ts ++ [⟨.comma, q⟩]))

end

/-- Nothing is read on from here: there are no more tokens, or the next one is the end mark. -/
def Ends (ts : List Token) : Prop := ts = [] ∨ ∃ p us, ts = ⟨.eof, p⟩ :: us

/-- The tokens write the statements, with semicolons between them and around them. -/
inductive SpellsProgram : List Written → List Token → Prop
  | stop {ts : List Token} (h : Ends ts) : SpellsProgram [] ts
  | skip {es : List Written} {ts : List Token} (p : Place) (h : SpellsProgram es ts) :
      SpellsProgram es (⟨.semicolon, p⟩ :: ts)
  | last {e : Written} {ts us : List Token} (h : Spells e ts) (hu : Ends us) :
      SpellsProgram [e] (ts ++ us)
  | next {e : Written} {es : List Written} {ts us : List Token} (p : Place) (h : Spells e ts)
      (hs : SpellsProgram es us) : SpellsProgram (e :: es) (ts ++ ⟨.semicolon, p⟩ :: us)

/-- The token ends nothing: it neither closes arguments nor separates or ends statements. -/
def Starts (t : Token) : Prop :=
  match t.kind with
  | .rightParen => False
  | .semicolon => False
  | .eof => False
  | _ => True

/-- An expression starts with a token that ends nothing. -/
theorem Spells.starts : ∀ {e : Written} {ts : List Token}, Spells e ts →
    ∃ t us, ts = t :: us ∧ Starts t
  | _, _, .string _ _ => ⟨_, _, rfl, trivial⟩
  | _, _, .integer _ _ _ _ => ⟨_, _, rfl, trivial⟩
  | _, _, .null _ => ⟨_, _, rfl, trivial⟩
  | _, _, .group _ _ _ => ⟨_, _, rfl, trivial⟩
  | _, _, .callEmpty _ _ _ _ => ⟨_, _, rfl, trivial⟩
  | _, _, .call _ _ _ _ _ _ => ⟨_, _, rfl, trivial⟩
  | _, _, .index _ _ hs _ => by
      obtain ⟨t, us, rfl, ht⟩ := Spells.starts hs
      exact ⟨t, _, rfl, ht⟩

theorem SpellsBefore.starts : ∀ {es : List Written} {us : List Token}, SpellsBefore es us →
    us = [] ∨ ∃ t vs, us = t :: vs ∧ Starts t
  | _, _, .nil => Or.inl rfl
  | _, _, .snoc q hs h => by
      obtain ⟨t, ts, rfl, ht⟩ := h.starts
      rcases hs.starts with rfl | ⟨t', vs, rfl, ht'⟩
      · exact Or.inr ⟨t, _, rfl, ht⟩
      · exact Or.inr ⟨t', _, rfl, ht'⟩

/-- The arguments of a call start with a token that ends nothing. -/
theorem starts_append {es : List Written} {e : Written} {us ts rest : List Token}
    (hs : SpellsBefore es us) (h : Spells e ts) :
    ∃ t vs, us ++ (ts ++ rest) = t :: vs ∧ Starts t := by
  rcases hs.starts with rfl | ⟨t, vs, rfl, ht⟩
  · obtain ⟨t, vs, rfl, ht⟩ := h.starts
    exact ⟨t, _, rfl, ht⟩
  · exact ⟨t, _, rfl, ht⟩

/-- No index is opened among the tokens. -/
def Bracketless (ts : List Token) : Prop := ∀ t ∈ ts, t.kind ≠ .leftBracket

theorem Bracketless.of_append {ts us : List Token} (h : Bracketless (ts ++ us)) :
    Bracketless ts ∧ Bracketless us := List.forall_mem_append.1 h

mutual

/-- **Without an index, the reader counts at least the levels of the tree.** -/
theorem height_le_levels : ∀ {e : Written} {ts : List Token}, Spells e ts → Bracketless ts →
    e.height ≤ e.levels
  | _, _, .string _ _, _ => Nat.le_refl 1
  | _, _, .integer _ _ _ _, _ => Nat.le_refl 1
  | _, _, .null _, _ => Nat.le_refl 1
  | _, _, .group _ _ h, hb =>
      Nat.le_succ_of_le
        (height_le_levels h (Bracketless.of_append (List.forall_mem_cons.1 hb).2).1)
  | _, _, .callEmpty _ _ _ _, _ => Nat.le_refl 1
  | _, _, @Spells.call es e _ _ _ _ _ _ hs h, hb => by
      have hb := (List.forall_mem_cons.1 (List.forall_mem_cons.1 hb).2).2
      obtain ⟨hus, hts⟩ := Bracketless.of_append hb
      have hlast := height_le_levels h hts.of_append.1
      have hall := heightAll_le_levelsAll hs hus
      show heightAll (es ++ [e]) + 1 ≤ levelsAll (es ++ [e]) + 1
      rw [heightAll_concat, levelsAll_concat]
      omega
  | _, _, .index p _ _ _, hb =>
      absurd rfl (hb ⟨.leftBracket, p⟩ (List.mem_append_right _ List.mem_cons_self))

theorem heightAll_le_levelsAll : ∀ {es : List Written} {us : List Token}, SpellsBefore es us →
    Bracketless us → heightAll es ≤ levelsAll es
  | _, _, .nil, _ => Nat.le_refl 0
  | _, _, @SpellsBefore.snoc es e _ _ _ hs h, hb => by
      obtain ⟨hus, hts⟩ := Bracketless.of_append hb
      have hlast := height_le_levels h hts.of_append.1
      have hall := heightAll_le_levelsAll hs hus
      rw [heightAll_concat, levelsAll_concat]
      omega

end

theorem SpellsProgram.height_le_levels {es : List Written} {ts : List Token}
    (h : SpellsProgram es ts) (hb : Bracketless ts) : ∀ e ∈ es, e.height ≤ e.levels := by
  induction h with
  | stop => exact fun e he => (List.not_mem_nil he).elim
  | skip p _ ih => exact ih (List.forall_mem_cons.1 hb).2
  | last h _ => exact List.forall_mem_singleton.2 (Written.height_le_levels h hb.of_append.1)
  | next p h _ ih =>
      obtain ⟨hts, hus⟩ := Bracketless.of_append hb
      exact List.forall_mem_cons.2
        ⟨Written.height_le_levels h hts, ih (List.forall_mem_cons.1 hus).2⟩

end Written

/-! ## 3. The reader takes what is written -/

namespace Node

open Written

variable {limit : Nat}

/-- In front of an expression, the first argument is read like any other. -/
theorem parseFrom_firstArgument {frames : List Frame} {name : String} {p : Place} {t : Token}
    (ht : Starts t) (ts : List Token) :
    parseFrom limit frames (.firstArgument name p) (t :: ts) =
      parseFrom limit (.arguments name p [] :: frames) .expression (t :: ts) := by
  have h : t.kind ≠ .rightParen := fun e => by simp [Starts, e] at ht
  simp only [parseFrom, step, if_neg h]

/-- In front of an expression, a statement is read as an expression within nothing. -/
theorem parseFrom_statement {t : Token} (ht : Starts t) (ts : List Token) :
    parseFrom limit [] .statement (t :: ts) = parseFrom limit [] .expression (t :: ts) := by
  have h : step limit [] t .statement = startExpression limit [] t := by
    unfold Starts at ht
    unfold step
    split at ht <;> simp_all
  simp only [parseFrom, h]
  rfl

mutual

/-- **An expression that keeps to the levels is read to its tree**, whatever is open around it and
    whatever follows it. -/
theorem parseFrom_spells : ∀ {e : Written} {ts : List Token}, Spells e ts →
    ∀ (frames : List Frame) (rest : List Token), frames.length + e.levels ≤ limit →
      parseFrom limit frames .expression (ts ++ rest) = parseFrom limit frames (.rest e.node) rest
  | _, _, .string s p, frames, rest, h => by
      have hl : ¬ limit ≤ frames.length := Nat.not_le.2 h
      simp [parseFrom, step, startExpression, hl, node]
  | _, _, .integer written n p hn, frames, rest, h => by
      have hl : ¬ limit ≤ frames.length := Nat.not_le.2 h
      simp [parseFrom, step, startExpression, hl, hn, node]
  | _, _, .null p, frames, rest, h => by
      have hl : ¬ limit ≤ frames.length := Nat.not_le.2 h
      simp [parseFrom, step, startExpression, hl, node]
  | .group e, _, .group p q hs, frames, rest, h => by
      have hl : ¬ limit ≤ frames.length := by simp only [levels] at h; omega
      have he : (Frame.group :: frames).length + e.levels ≤ limit := by
        simp only [levels] at h
        simp only [List.length_cons]
        omega
      rw [List.cons_append, List.append_assoc]
      simp only [parseFrom, step, startExpression, if_neg hl]
      rw [parseFrom_spells hs (.group :: frames) _ he]
      rfl
  | _, _, .callEmpty name p q q', frames, rest, h => by
      have hl : ¬ limit ≤ frames.length := Nat.not_le.2 h
      simp [parseFrom, step, startExpression, hl, node, nodes]
  | _, _, @Spells.call es e _ _ name p q q' hs he, frames, rest, h => by
      have hl : ¬ limit ≤ frames.length := by simp only [levels] at h; omega
      have hargs : ∀ a ∈ es ++ [e], a.levels ≤ limit - (frames.length + 1) :=
        levelsAll_le_iff.1 (by simp only [levels] at h; omega)
      have hes : ∀ a ∈ es, frames.length + 1 + a.levels ≤ limit := fun a ha => by
        have := hargs a (List.mem_append_left _ ha)
        omega
      have hlast : (Frame.arguments name p (nodes es).reverse :: frames).length + e.levels ≤
          limit := by
        have := hargs e (List.mem_append_right _ (List.mem_singleton.2 rfl))
        simp only [List.length_cons]
        omega
      obtain ⟨t, vs, ht, hst⟩ := @starts_append _ _ _ _ (⟨.rightParen, q'⟩ :: rest) hs he
      simp only [List.cons_append, List.append_assoc, List.nil_append, parseFrom, step,
        startExpression, if_neg hl, if_pos]
      rw [ht, parseFrom_firstArgument hst vs, ← ht, parseFrom_spellsBefore hs name p frames _ hes,
        parseFrom_spells he _ _ hlast]
      simp [parseFrom, step, afterNode, node, nodes_append, nodes]
  | .index s _ i, _, .index p q hs hi, frames, rest, h => by
      have h₁ : frames.length + s.levels ≤ limit := by simp only [levels] at h; omega
      have h₂ : (Frame.index s.node p :: frames).length + i.levels ≤ limit := by
        simp only [levels] at h
        simp only [List.length_cons]
        omega
      rw [List.append_assoc, parseFrom_spells hs frames _ h₁, List.cons_append, List.append_assoc]
      simp only [parseFrom, step, afterNode, if_pos]
      rw [parseFrom_spells hi (.index s.node p :: frames) _ h₂]
      rfl

theorem parseFrom_spellsBefore : ∀ {es : List Written} {us : List Token}, SpellsBefore es us →
    ∀ (name : String) (p : Place) (frames : List Frame) (rest : List Token),
      (∀ e ∈ es, frames.length + 1 + e.levels ≤ limit) →
      parseFrom limit (.arguments name p [] :: frames) .expression (us ++ rest) =
        parseFrom limit (.arguments name p (nodes es).reverse :: frames) .expression rest
  | _, _, .nil, _, _, _, _, _ => rfl
  | _, _, @SpellsBefore.snoc es e _ _ q hs h, name, p, frames, rest, hl => by
      have hes : ∀ a ∈ es, frames.length + 1 + a.levels ≤ limit := fun a ha =>
        hl a (List.mem_append_left _ ha)
      have hlast : (Frame.arguments name p (nodes es).reverse :: frames).length + e.levels ≤
          limit := by
        have := hl e (List.mem_append_right _ (List.mem_singleton.2 rfl))
        simp only [List.length_cons]
        omega
      rw [List.append_assoc, parseFrom_spellsBefore hs name p frames _ hes, List.append_assoc,
        parseFrom_spells h _ _ hlast]
      simp [parseFrom, step, afterNode, nodes_append, nodes]

end

theorem parseFrom_statement_of_ends {ts : List Token} (h : Ends ts) :
    parseFrom limit [] .statement ts = .ok [] := by
  rcases h with rfl | ⟨p, us, rfl⟩
  · rfl
  · rfl

theorem parseFrom_rest_of_ends {n : Node} {ts : List Token} (h : Ends ts) :
    parseFrom limit [] (.rest n) ts = .ok [n] := by
  rcases h with rfl | ⟨p, us, rfl⟩
  · rfl
  · simp [parseFrom, step, afterNode]

/-- A statement in front of other tokens is read to its tree. -/
theorem parseFrom_statement_spells {e : Written} {ts : List Token} (h : Spells e ts)
    (hl : e.levels ≤ limit) (rest : List Token) :
    parseFrom limit [] .statement (ts ++ rest) = parseFrom limit [] (.rest e.node) rest := by
  rw [← parseFrom_spells h [] rest (by simpa using hl)]
  obtain ⟨t, us, rfl, ht⟩ := h.starts
  exact parseFrom_statement ht (us ++ rest)

/-- **A program whose expressions keep to the levels is read to their trees.** -/
theorem parse_of_spellsProgram {es : List Written} {ts : List Token} (h : SpellsProgram es ts)
    (hl : ∀ e ∈ es, e.levels ≤ limit) : parse limit ts = .ok (nodes es) := by
  unfold parse
  induction h with
  | stop hu => exact parseFrom_statement_of_ends hu
  | skip p _ ih => exact ih hl
  | last h hu =>
      rw [parseFrom_statement_spells h (hl _ List.mem_cons_self), parseFrom_rest_of_ends hu]
      rfl
  | next p h _ ih =>
      rw [parseFrom_statement_spells h (hl _ List.mem_cons_self)]
      simp [parseFrom, step, afterNode, ih fun e he => hl e (List.mem_cons_of_mem _ he), nodes,
        Except.map]

/-! ## 4. What is read was written -/

/-- The tokens that were read since the statement began write what is open, within the levels. -/
inductive Opened (limit : Nat) : List Frame → List Token → Prop
  | nil : Opened limit [] []
  | group {frames : List Frame} {ts : List Token} (p : Place) (ho : Opened limit frames ts)
      (hl : frames.length < limit) : Opened limit (.group :: frames) (ts ++ [⟨.leftParen, p⟩])
  | arguments {frames : List Frame} {ts us : List Token} {es : List Written} (name : String)
      (p q : Place) (ho : Opened limit frames ts) (hl : frames.length < limit)
      (hs : SpellsBefore es us) (hes : ∀ e ∈ es, frames.length + 1 + e.levels ≤ limit) :
      Opened limit (.arguments name p (nodes es).reverse :: frames)
        (ts ++ ⟨.ident name, p⟩ :: ⟨.leftParen, q⟩ :: us)
  | index {frames : List Frame} {ts us : List Token} {s : Written} (p : Place)
      (ho : Opened limit frames ts) (hs : Spells s us) (hl : frames.length + s.levels ≤ limit) :
      Opened limit (.index s.node p :: frames) (ts ++ (us ++ [⟨.leftBracket, p⟩]))

/-- The tokens that were read since the statement began write what is open and what the goal has in
    hand, within the levels. -/
inductive Reached (limit : Nat) : List Frame → Goal → List Token → Prop
  | statement : Reached limit [] .statement []
  | expression {frames : List Frame} {ts : List Token} (ho : Opened limit frames ts) :
      Reached limit frames .expression ts
  | opening {frames : List Frame} {ts : List Token} (name : String) (p : Place)
      (ho : Opened limit frames ts) (hl : frames.length < limit) :
      Reached limit frames (.opening name p) (ts ++ [⟨.ident name, p⟩])
  | firstArgument {frames : List Frame} {ts : List Token} (name : String) (p q : Place)
      (ho : Opened limit frames ts) (hl : frames.length < limit) :
      Reached limit frames (.firstArgument name p) (ts ++ [⟨.ident name, p⟩, ⟨.leftParen, q⟩])
  | rest {frames : List Frame} {ts us : List Token} {e : Written} (ho : Opened limit frames ts)
      (he : Spells e us) (hl : frames.length + e.levels ≤ limit) :
      Reached limit frames (.rest e.node) (ts ++ us)

section

variable {frames frames' : List Frame} {goal goal' : Goal} {ts : List Token} {t : Token}

/-- The first token of an expression keeps what was read. -/
theorem reached_startExpression (ho : Opened limit frames ts)
    (h : startExpression limit frames t = .go frames' goal') :
    Reached limit frames' goal' (ts ++ [t]) := by
  obtain ⟨kind, p⟩ := t
  unfold startExpression at h
  split at h
  · cases h
  · next hl =>
    have hl : frames.length < limit := Nat.not_le.1 hl
    cases kind with
    | string s =>
        cases h
        exact .rest ho (.string s p) hl
    | integer written =>
        cases hn : Decimal.parse? written with
        | some n =>
            simp only [hn] at h
            cases h
            exact .rest ho (.integer written n p hn) hl
        | none => simp [hn] at h
    | null =>
        cases h
        exact .rest ho (.null p) hl
    | ident name =>
        cases h
        exact .opening name p ho hl
    | leftParen =>
        cases h
        exact .expression (.group p ho hl)
    | comma | semicolon | rightParen | leftBracket | rightBracket | eof => cases h

/-- The token after an expression keeps what was read: it opens an index, or it goes with the
    innermost thing that is open. -/
theorem reached_afterNode {e : Written} {us : List Token} (ho : Opened limit frames ts)
    (he : Spells e us) (hl : frames.length + e.levels ≤ limit)
    (h : afterNode e.node frames t = .go frames' goal') :
    Reached limit frames' goal' (ts ++ us ++ [t]) := by
  obtain ⟨kind, p⟩ := t
  unfold afterNode at h
  split at h
  · next hk =>
    obtain rfl : kind = .leftBracket := hk
    cases h
    rw [List.append_assoc]
    exact .expression (.index p ho he hl)
  · rw [List.append_assoc]
    cases ho with
    | nil => cases kind <;> cases h
    | @group fs vs q ho hf =>
        have hg : fs.length + (Written.group e).levels ≤ limit := by
          simp only [List.length_cons] at hl
          simp only [levels]
          omega
        cases kind with
        | rightParen =>
            cases h
            rw [List.append_assoc]
            exact .rest (e := .group e) ho (.group q p he) hg
        | _ => cases h
    | @arguments fs vs ws es name q q' ho hf hs hes =>
        have hes' : ∀ a ∈ es ++ [e], fs.length + 1 + a.levels ≤ limit := by
          simpa [or_imp, forall_and] using And.intro hes hl
        have hc : fs.length + (Written.call name q (es ++ [e])).levels ≤ limit := by
          have hall : levelsAll (es ++ [e]) ≤ limit - (fs.length + 1) :=
            levelsAll_le_iff.2 fun a ha => by
              have := hes' a ha
              omega
          simp only [levels]
          omega
        rw [List.append_assoc]
        cases kind with
        | comma =>
            cases h
            have ho' := Opened.arguments name q q' ho hf (.snoc p hs he) hes'
            rw [nodes_append, List.reverse_append] at ho'
            exact .expression ho'
        | rightParen =>
            cases h
            have hr := Reached.rest ho (.call name q q' p hs he) hc
            rw [node, nodes_append] at hr
            rw [List.reverse_cons, List.reverse_reverse]
            exact hr
        | _ => cases h
    | @index fs vs ws s q ho hs hf =>
        have hi : fs.length + (Written.index s q e).levels ≤ limit := by
          simp only [List.length_cons] at hl
          simp only [levels]
          omega
        cases kind with
        | rightBracket =>
            cases h
            have hr := Reached.rest ho (.index q p hs he) hi
            simpa [node] using hr
        | _ => cases h

/-- **A token that is taken keeps what was read**, but for a semicolon between statements, after
    which a statement begins. -/
theorem reached_step (hr : Reached limit frames goal ts)
    (h : step limit frames t goal = .go frames' goal') :
    Reached limit frames' goal' (ts ++ [t]) ∨
      (goal = .statement ∧ t.kind = .semicolon ∧ frames' = [] ∧ goal' = .statement) := by
  cases hr with
  | statement =>
      simp only [step] at h
      split at h
      · next hk =>
        cases h
        exact Or.inr ⟨rfl, hk, rfl, rfl⟩
      · cases h
      · exact Or.inl (reached_startExpression .nil h)
  | expression ho => exact Or.inl (reached_startExpression ho h)
  | opening name p ho hl =>
      obtain ⟨kind, q⟩ := t
      simp only [step] at h
      split at h
      · next hk =>
        obtain rfl : kind = .leftParen := hk
        cases h
        rw [List.append_assoc]
        exact Or.inl (.firstArgument name p q ho hl)
      · cases h
  | firstArgument name p q ho hl =>
      obtain ⟨kind, q'⟩ := t
      simp only [step] at h
      split at h
      · next hk =>
        obtain rfl : kind = .rightParen := hk
        cases h
        rw [List.append_assoc]
        exact Or.inl (.rest ho (.callEmpty name p q q') hl)
      · exact Or.inl (reached_startExpression (.arguments name p q ho hl .nil (by simp)) h)
  | rest ho he hl => exact Or.inl (reached_afterNode ho he hl h)

/-- Only a complete statement is handed over, by the token that ends it. -/
theorem step_eq_finish {n : Node} (h : step limit frames t goal = .finish n) :
    goal = .rest n ∧ frames = [] ∧ (t.kind = .semicolon ∨ t.kind = .eof) := by
  cases goal with
  | rest m =>
      simp only [step, afterNode] at h
      split at h
      · cases h
      · split at h <;> cases h
        · next hk => exact ⟨rfl, rfl, Or.inl hk⟩
        · next hk => exact ⟨rfl, rfl, Or.inr hk⟩
  | statement | expression | opening | firstArgument =>
      simp only [step, startExpression] at h
      repeat' split at h
      all_goals cases h

/-- Nothing but the end mark stops the reader, and only between statements. -/
theorem step_eq_stop (h : step limit frames t goal = .stop) :
    goal = .statement ∧ t.kind = .eof := by
  cases goal with
  | statement =>
      simp only [step, startExpression] at h
      split at h
      · cases h
      · next hk => exact ⟨rfl, hk⟩
      · repeat' split at h
        all_goals cases h
  | expression | opening | firstArgument | rest =>
      simp only [step, startExpression, afterNode] at h
      repeat' split at h
      all_goals cases h

/-- What is read on from where the reader stands was written, and what it has in hand belongs to
    the first statement. -/
theorem spellsProgram_of_parseFrom {us : List Token} {program : Program}
    (hr : Reached limit frames goal ts) (h : parseFrom limit frames goal us = .ok program) :
    ∃ es, SpellsProgram es (ts ++ us) ∧ program = nodes es ∧ ∀ e ∈ es, e.levels ≤ limit := by
  induction us generalizing frames goal ts program with
  | nil =>
      cases hr with
      | statement =>
          cases h
          exact ⟨[], .stop (Or.inl rfl), rfl, by simp⟩
      | rest ho he hl =>
          cases ho with
          | nil =>
              cases h
              exact ⟨[_], .last he (Or.inl rfl), rfl, by simpa using hl⟩
          | group | arguments | index => cases h
      | expression ho | firstArgument name p q ho hl =>
          simp only [parseFrom, atEnd] at h
          split at h <;> cases h
      | opening => cases h
  | cons t us ih =>
      rw [parseFrom] at h
      cases hs : step limit frames t goal with
      | go frames' goal' =>
          simp only [hs] at h
          rcases reached_step hr hs with hr' | ⟨rfl, hk, rfl, rfl⟩
          · obtain ⟨es, hes, rfl, hl⟩ := ih hr' h
            rw [List.append_assoc] at hes
            exact ⟨es, hes, rfl, hl⟩
          · cases hr
            obtain ⟨es, hes, rfl, hl⟩ := ih .statement h
            obtain ⟨kind, q⟩ := t
            obtain rfl : kind = .semicolon := hk
            exact ⟨es, .skip q hes, rfl, hl⟩
      | finish n =>
          obtain ⟨rfl, rfl, hk⟩ := step_eq_finish hs
          obtain ⟨kind, q⟩ := t
          simp only [hs] at h
          cases hr with
          | rest ho he hl =>
            cases ho
            rcases hk with hk | hk
            · obtain rfl : kind = .semicolon := hk
              simp only [reduceCtorEq, if_false] at h
              cases hp : parseFrom limit [] .statement us with
              | error e => simp [hp, Except.map] at h
              | ok tail =>
                  obtain ⟨es, hes, rfl, hle⟩ := ih .statement hp
                  simp only [hp, Except.map] at h
                  cases h
                  exact ⟨_ :: es, .next q he hes, rfl, by simpa using ⟨by simpa using hl, hle⟩⟩
            · obtain rfl : kind = .eof := hk
              simp only [if_true] at h
              cases h
              exact ⟨[_], .last he (Or.inr ⟨q, us, rfl⟩), rfl, by simpa using hl⟩
      | stop =>
          obtain ⟨rfl, hk⟩ := step_eq_stop hs
          obtain ⟨kind, q⟩ := t
          obtain rfl : kind = .eof := hk
          simp only [hs] at h
          cases h
          cases hr
          exact ⟨[], .stop (Or.inr ⟨q, us, rfl⟩), rfl, by simp⟩
      | fail e => simp [hs] at h

end

/-- **What is read was written**: the tokens of a program that the reader takes write expressions
    that keep to its levels, and the program is their trees. -/
theorem spellsProgram_of_parse {ts : List Token} {program : Program}
    (h : parse limit ts = .ok program) :
    ∃ es, SpellsProgram es ts ∧ program = nodes es ∧ ∀ e ∈ es, e.levels ≤ limit :=
  spellsProgram_of_parseFrom .statement h

/-- No call that was read has a memo key. -/
theorem unkeyed_of_parse {ts : List Token} {program : Program} (h : parse limit ts = .ok program) :
    ∀ n ∈ program, n.Unkeyed := by
  obtain ⟨es, -, rfl, -⟩ := spellsProgram_of_parse h
  intro n hn
  rw [nodes_eq_map] at hn
  obtain ⟨e, -, rfl⟩ := List.mem_map.1 hn
  exact every_unkeyed_node e 1

end Node

end CallScript
