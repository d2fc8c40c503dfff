import CallScript.Proofs.Engine.Moves
import CallScript.Proofs.Engine.Stored
import CallScript.Proofs.Node.Printing
import CallScript.Proofs.Optimizer.Keys

/-!
# Printed programs compile to themselves

What an optimizing engine makes of a script may be printed, its statements with semicolons between them,
and compiled again by the same engine. It is compiled to itself: nothing fails, nothing is replaced or
left out, and every call has the memo key that it had. Only the places are others
(`Node.unplaced`).

The printed text is read back as the program without places and memo keys. That is also what the optimizer
makes the program of: it would give the keys again, and it does not look at places.

* `parse_printed`: reading back, if the names of the program can be written and its levels are accepted;
* `compile_printed`: the result for the functions of the language.
-/

namespace CallScript

/-! ## 1. Trees without places -/

/-- The tree without its places. -/
def Node.unplaced (n : Node) : Node := n.move fun _ => default

namespace Node

mutual

/-- What is left of a tree without places and keys. -/
theorem bare_eq : ∀ n : Node, n.bare = n.withoutKeys.unplaced
  | .literal _ _ => rfl
  | .call name _ args _ => congrArg (Node.call name default · none) (bareAll_eq args)

theorem bareAll_eq : ∀ ns : List Node,
    bareAll ns = moveAll (fun _ => default) (withoutKeysAll ns)
  | [] => rfl
  | n :: ns => by
      rw [bareAll, withoutKeysAll, moveAll, bare_eq n, bareAll_eq ns]
      rfl

end

/-- Trees without keys that are the same but for their places are what is left of each other. -/
theorem map_unplaced_of_bare {p q : Program} (hp : ∀ n ∈ p, n.Unkeyed)
    (h : p.map bare = q.map bare) :
    p.map unplaced = (q.map withoutKeys).map unplaced := by
  have hself : ∀ n ∈ p, n.unplaced = n.bare := by
    intro n hn
    rw [bare_eq, withoutKeys_of_unkeyed (hp n hn)]
  have hother : ∀ n ∈ q, n.bare = (unplaced ∘ withoutKeys) n := fun n _ => bare_eq n
  rw [List.map_congr_left hself, h, List.map_congr_left hother, List.map_map]

end Node

/-! ## 2. Names -/

/-- The functions of the registry have names that can be written in a script. -/
def Registry.Writable (r : Registry) : Prop :=
  ∀ name f, r.get? name = some f → Token.IsName name.toList ∧ name ≠ "null"

/-- **The names of the language can be written.** -/
theorem Registry.writable_standard : Registry.standard.Writable := by
  have hname : ∀ cs : List Char, (∃ c r, cs = c :: r ∧ Token.isNameStart c = true ∧
      r.all Token.isNamePart = true) → Token.IsName cs := by
    rintro _ ⟨c, r, rfl, hc, hr⟩
    exact ⟨c, r, rfl, hc, List.all_eq_true.1 hr⟩
  intro name f hf
  obtain ⟨hmem, rfl⟩ := mem_builtins hf
  simp only [builtins, List.mem_cons, List.not_mem_nil, or_false] at hmem
  rcases hmem with rfl | rfl | rfl | rfl | rfl | rfl | rfl | rfl | rfl | rfl | rfl
  all_goals exact ⟨hname _ ⟨_, _, rfl, rfl, rfl⟩, by decide⟩

/-- The calls of a settled expression have names of the registry. -/
theorem Optimizer.Settled.named {r : Registry} (hr : r.Writable) {o : Optimizer.Options} {d : Nat}
    {n : Node} (h : Optimizer.Settled r o d n) : n.Every Node.Named d := by
  refine h.imp fun _ m hm name hname => ?_
  cases m with
  | literal v p => cases hname
  | call name' p args memo =>
      cases hname
      obtain ⟨-, f, hf, -⟩ := hm
      exact hr name f hf

namespace Engine

/-! ## 3. Reading back -/

/-- The text of a program: its statements with semicolons between them. -/
def printed (p : Program) : String := ";".intercalate (p.map Node.render)

/-- **The text of a program is read back as the program**, without its keys and at other places. -/
theorem parse_printed (file : Option String) {limit : Nat} {p : Program}
    (hname : ∀ n ∈ p, n.Every Node.Named 1) (hdepth : ∀ n ∈ p, n.depth ≤ limit) :
    ∃ ts p', Token.scan (printed p) file = .ok ts ∧ Node.parse limit ts = .ok p' ∧
      p'.map Node.unplaced = (p.map Node.withoutKeys).map Node.unplaced := by
  have heach : ∀ n ∈ p, Token.CutsInto (Node.Derives limit 1 n) n.render.toList := by
    intro n hn
    have hdepth := hdepth n hn
    exact Node.cutsInto_render n (hname n hn) (by omega)
  obtain ⟨us, ⟨p', hp', hbare⟩, hcut⟩ :=
    Node.cutsInto_program heach ⟨file, 1, 1⟩ [] [] (fun _ h => by cases h) (.stop _)
  rw [List.append_nil, List.append_nil] at hcut
  have hscan : Token.scan (printed p) file = .ok _ := Token.scanFrom_of_cuts hcut _
  have hparse := Node.parse_of_derivesProgram hp'
    ((⟨file, 1, 1⟩ : Place).after (printed p).toList)
  rw [Node.bareAll_eq_map, Node.bareAll_eq_map] at hbare
  exact ⟨_, p', hscan, hparse,
    Node.map_unplaced_of_bare (Node.unkeyed_of_parse hparse) hbare⟩

/-! ## 4. Compiling again -/

/-- **A printed program compiles to itself**: if an optimizing engine of the language compiles a script, it
    compiles the text of the program, too, and to the same program apart from places, with the same
    memo keys. -/
theorem compile_printed {options : Options} (session : Session) (ho : options.optimize = true)
    {source : String} {p : Program}
    (h : (⟨.standard, options, session⟩ : Engine).compile source = .ok p) :
    ∃ q, (⟨.standard, options, session⟩ : Engine).compile (printed p) = .ok q ∧
      q.map Node.unplaced = p.map Node.unplaced := by
  obtain ⟨ts₀, -, h⟩ := exists_tokens_of_compile h
  obtain ⟨p₀, hparse₀, hopt⟩ := (compileTokens_eq_ok_iff ho).1 h
  have hagain := Optimizer.optimize_withoutKeys (Node.unkeyed_of_parse hparse₀) hopt
  have hsettled : ∀ n ∈ p,
      Optimizer.Settled .standard ⟨options.keepResults, true, options.maxDepth⟩ 1 n := by
    rw [← Optimizer.optimizeBy_budgetFor] at hopt
    exact (Optimizer.settledProgram_optimizeBy hopt).1.settled
  have hname : ∀ n ∈ p, n.Every Node.Named 1 :=
    fun n hn => (hsettled n hn).named Registry.writable_standard
  have hdepth : ∀ n ∈ p, n.depth ≤ options.maxDepth := by
    intro n hn
    have hle := (Node.every_within_iff n).1 (hsettled n hn).within
    dsimp only at hle
    omega
  obtain ⟨ts, p', hscan, hparse, hplaces⟩ := parse_printed options.file hname hdepth
  -- without places, what was read is the program without keys, and the optimizer gives them again
  have hmoved := @Optimizer.optimize_move (fun _ => default) .standard
    ⟨options.keepResults, true, options.maxDepth⟩ Registry.ignoresPlaces_standard
  have hsame := (hmoved p').symm.trans
    ((congrArg (Optimizer.optimize .standard _) hplaces).trans (hmoved (p.map Node.withoutKeys)))
  rw [hagain] at hsame
  obtain ⟨q, hq, hqp⟩ := mapBoth_eq_ok hsame
  refine ⟨q, ?_, hqp⟩
  rw [compile_of_scan (e := ⟨.standard, options, session⟩) hscan,
    (compileTokens_eq_ok_iff ho).2 ⟨p', hparse, hq⟩]
  rfl

/-- A call with a memo key, which is given again. -/
theorem compile_printed_escape :
    freshEngine.options.optimize = true ∧ freshEngine.compile escapeSource = .ok escapeProgram ∧
      ∃ q, freshEngine.compile (printed escapeProgram) = .ok q ∧
        q.map Node.unplaced = escapeProgram.map Node.unplaced := by
  have hcompile : freshEngine.compile escapeSource = .ok escapeProgram :=
    compile_of_parse parse_escapeSource rfl optimize_escapeCall
  exact ⟨rfl, hcompile, compile_printed _ rfl hcompile⟩

end Engine

end CallScript
