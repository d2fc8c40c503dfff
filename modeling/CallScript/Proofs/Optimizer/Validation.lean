import CallScript.Proofs.Function.Laws
import CallScript.Proofs.Function.Matches
import CallScript.Proofs.Optimizer.Derivation
import CallScript.Proofs.Run.Keys

/-!
# What literal calls raise before a program runs

The functions on texts and patterns can be validated: `validate_eq_execute` says that validation raises
exactly what the call raises. A call with literal arguments that raises an exception when it runs is
refused by the optimizer with the same exception, if the optimizer looks at it (`Examined`). It does
not look at the limit of a split whose pattern means more than a text.

* `optimizeNode_eq_exception_iff`: a literal call is refused with an exception exactly when carrying it
  out raises that exception, there is a level for its arguments, and the call is looked at;
* `split_not_examined`: a split that is accepted and raises an exception.
-/

namespace CallScript

/-! ## 1. Validation -/

namespace Function

/-- The functions that work with texts and patterns. -/
def onTexts : List Function :=
  [.replace, .split, .regMatch, .regMatchAll, .regReplace, .regSplit, .regCount, .regEscape]

theorem mem_builtins_of_mem_onTexts {f : Function} (hf : f ∈ onTexts) : f ∈ Registry.builtins := by
  simp only [onTexts, List.mem_cons, List.not_mem_nil, or_false] at hf
  rcases hf with rfl | rfl | rfl | rfl | rfl | rfl | rfl | rfl
  all_goals simp [Registry.builtins]

/-- They all take arguments. -/
theorem accepts_zero {f : Function} (hf : f ∈ onTexts) : f.arity.accepts 0 = false := by
  simp only [onTexts, List.mem_cons, List.not_mem_nil, or_false] at hf
  rcases hf with rfl | rfl | rfl | rfl | rfl | rfl | rfl | rfl
  all_goals rfl

/-- Only the split at a pattern does not allow that it is validated. -/
theorem allows_validated_or_eq_regSplit {f : Function} (hf : f ∈ onTexts) :
    f.allows .validated = true ∨ f = regSplit := by
  simp only [onTexts, List.mem_cons, List.not_mem_nil, or_false] at hf
  rcases hf with rfl | rfl | rfl | rfl | rfl | rfl | rfl | rfl
  case inr.inr.inr.inr.inr.inl => exact Or.inr rfl
  all_goals exact Or.inl rfl

/-- A function that only computes is validated as it runs if its check is its computation without the
    value. -/
theorem validate_ofPure {d : Description} {compute : List Value → Except Fault Value}
    {check : List Value → Except Fault Unit}
    {replace : List Node → Place → Except Fault (Option Node)}
    (h : ∀ args, check args = (compute args).map fun _ => ()) (args : List Value) (p : Place)
    (w : World) :
    (ofPure d compute check replace).validate args p =
      ((ofPure d compute check replace).execute args p w).1.map fun _ => () := by
  show raiseAt p (check args) = (raiseAt p (compute args)).map _
  rw [h]
  cases compute args with
  | ok v => rfl
  | error e => rfl

theorem checkPattern_eq (compute : Pattern → Pattern.Subject → Value) (args : List Value) :
    checkPattern args = (withPattern compute args).map fun _ => () := by
  unfold checkPattern withPattern
  cases patternOf (arg args 0) with
  | ok p => rfl
  | error e => rfl

/-- **Validation raises what the call raises**, and nothing else. -/
theorem validate_eq_execute {f : Function} (hf : f ∈ onTexts) (args : List Value) (p : Place)
    (w : World) : f.validate args p = (f.execute args p w).1.map fun _ => () := by
  simp only [onTexts, List.mem_cons, List.not_mem_nil, or_false] at hf
  rcases hf with rfl | rfl | rfl | rfl | rfl | rfl | rfl | rfl
  case inl => exact validate_ofPure (fun _ => rfl) args p w
  case inr.inl =>
    refine validate_ofPure (fun args => ?_) args p w
    cases cutsFor args[2]? with
    | ok cuts => rfl
    | error e => rfl
  case inr.inr.inl => exact validate_ofPure (checkPattern_eq _) args p w
  case inr.inr.inr.inl => exact validate_ofPure (checkPattern_eq _) args p w
  case inr.inr.inr.inr.inl =>
    refine validate_ofPure (fun args => ?_) args p w
    cases patternOf (arg args 0) with
    | error e => rfl
    | ok q =>
        show (replacementOf (arg args 1).render q >>= fun _ => pure ()) =
          (replacementOf (arg args 1).render q >>= fun r => pure _).map _
        cases replacementOf (arg args 1).render q with
        | ok r => rfl
        | error e => rfl
  case inr.inr.inr.inr.inr.inl =>
    refine validate_ofPure (fun args => ?_) args p w
    cases patternOf (arg args 0) with
    | error e => rfl
    | ok q =>
        show (cutsFor args[2]? >>= fun _ => pure ()) =
          (cutsFor args[2]? >>= fun cuts => pure _).map _
        cases cutsFor args[2]? with
        | ok cuts => rfl
        | error e => rfl
  case inr.inr.inr.inr.inr.inr.inl => exact validate_ofPure (checkPattern_eq _) args p w
  case inr.inr.inr.inr.inr.inr.inr => exact validate_ofPure (fun _ => rfl) args p w

end Function

/-! ## 2. Calls with literal arguments -/

namespace Optimizer

open Node

variable {r : Registry} {o : Options} {args : List Node} {ls : List Literal}

/-- Literals that are within the levels are left as they are. -/
theorem optimizeAllWith_literals {again : Nat → Node → Except CompileError Node} {d : Nat}
    (hd : d ≤ o.maxDepth) : ∀ {args : List Node} {ls : List Literal},
      literals? args = some ls → optimizeAllWith r o again d args = .ok args
  | [], _, _ => rfl
  | n :: ns, _, h => by
      obtain ⟨l, q, ls, rfl, hls, rfl⟩ := literals?_cons_eq_some h
      rw [optimizeAllWith, optimizeAllWith_literals hd hls, optimizeWith,
        if_neg (Nat.not_lt.2 hd)]
      rfl

theorem optimizeAt_call (h : literals? args = some ls) {d : Nat} (hd : d + 1 ≤ o.maxDepth)
    (budget : Nat) (name : String) (p : Place) (memo : Option MemoKey) :
    optimizeAt r o (budget + 1) d (.call name p args memo) =
      optimizeCall r o (optimizeAt r o budget d) name p args memo := by
  rw [optimizeAt, optimizeWith, if_neg (by omega), optimizeAllWith_literals hd h]
  rfl

/-- Arguments without a level for them are refused for it. -/
theorem optimizeAt_arguments_too_deep (h : literals? args = some ls) (hne : args ≠ []) {d : Nat}
    (hd : o.maxDepth < d + 1) (budget : Nat) (name : String) (p : Place) (memo : Option MemoKey) :
    ∃ q, optimizeAt r o (budget + 1) d (.call name p args memo) =
      .error (.nestingTooDeep q o.maxDepth) := by
  by_cases hd' : o.maxDepth < d
  · exact ⟨p, by rw [optimizeAt, optimizeWith, if_pos hd']⟩
  cases args with
  | nil => exact absurd rfl hne
  | cons n ns =>
      obtain ⟨l, q, ls, rfl, -, -⟩ := literals?_cons_eq_some h
      refine ⟨q, ?_⟩
      rw [optimizeAt, optimizeWith, if_neg hd', optimizeAllWith, optimizeWith, if_pos hd]
      rfl

/-- A call with literal arguments, where the name and the number of arguments are in order: what is
    raised is raised by validation or by the replacement. -/
theorem optimizeCall_literals {f : Function} {name : String} (hf : r.get? name = some f)
    (ha : f.arity.accepts args.length = true) (h : literals? args = some ls)
    (again : Node → Except CompileError Node) (p : Place) (memo : Option MemoKey) :
    optimizeCall r o again name p args memo =
      ((validate f p (some ls)).bind fun _ => (replacement? f p args).bind fun m? =>
        m?.elim (.ok (.call name p args (memoFor o f name (some ls) memo))) again) := by
  rw [optimizeCall_of_accepts hf ha, h]

/-! ## 3. What is raised is what the call raises -/

/-- The optimizer refuses what raises an exception, with the same exception, and accepts what has a
    value. -/
def Foretells (x : Except CompileError Node) (y : Except Exception Value) : Prop :=
  (∃ e, y = .error e ∧ x = .error (.exception e)) ∨ ∃ v n, y = .ok v ∧ x = .ok n

theorem Foretells.iff {x : Except CompileError Node} {y : Except Exception Value}
    (h : Foretells x y) (e : Exception) : x = .error (.exception e) ↔ y = .error e := by
  obtain ⟨e', rfl, rfl⟩ | ⟨v, n, rfl, rfl⟩ := h
  · constructor
    · intro hx
      cases hx
      rfl
    · intro hy
      cases hy
      rfl
  · exact ⟨nofun, nofun⟩

theorem fitAll_literals : ∀ {args : List Node} {ls : List Literal}, literals? args = some ls →
    FitAll args (ls.map Literal.toValue)
  | [], _, h => by
      cases h
      trivial
  | n :: ns, _, h => by
      obtain ⟨l, q, ls, rfl, hls, rfl⟩ := literals?_cons_eq_some h
      exact ⟨rfl, fitAll_literals hls⟩

/-- **A function that is validated foretells its exceptions**, if its replacements are accepted. -/
theorem foretells_of_validated {f : Function} (hf : f ∈ Function.onTexts)
    (hallow : f.allows .validated = true) (hget : r.get? f.name = some f)
    (ha : f.arity.accepts args.length = true) (h : literals? args = some ls) {p : Place}
    {again : Node → Except CompileError Node}
    (hagain : ∀ m, f.rewrite args p = .ok (some m) → ∃ n, again m = .ok n)
    (memo : Option MemoKey) (w : World) :
    Foretells (optimizeCall r o again f.name p args memo)
      (f.execute (ls.map Literal.toValue) p w).1 := by
  have hvalidate : validate f p (some ls) =
      raised ((f.execute (ls.map Literal.toValue) p w).1.map fun _ => ()) := by
    unfold validate
    dsimp only
    rw [if_pos hallow, Function.validate_eq_execute hf _ p w]
  rw [optimizeCall_literals hget ha h, hvalidate]
  cases hx : (f.execute (ls.map Literal.toValue) p w).1 with
  | error e => exact Or.inl ⟨e, rfl, rfl⟩
  | ok v =>
      have hlawful := Function.lawful_of_mem_builtins (Function.mem_builtins_of_mem_onTexts hf)
      refine Or.inr ⟨v, ?_⟩
      unfold replacement?
      split
      · next hw =>
        obtain ⟨m?, hm⟩ := hlawful.rewrite hw args _ p w v (fitAll_literals h) hx
        rw [hm]
        cases m? with
        | none => exact ⟨_, rfl, rfl⟩
        | some m =>
            obtain ⟨n, hn⟩ := hagain m hm
            exact ⟨n, rfl, hn⟩
      · exact ⟨_, rfl, rfl⟩

/-! ## 4. Replacements -/

/-- The optimizer looks at a literal call: it is validated, or the pattern is at fault, or the pattern
    means nothing but a text, so that a call that is validated takes its place. -/
def Examined (f : Function) (args : List Node) : Prop :=
  f.allows .validated = true ∨ (∃ e, Function.literalPattern? args = .error e) ∨
    ∃ plain, args.head?.bind Function.plainPattern? = some plain

section

variable (hr : ∀ f ∈ Registry.builtins, r.get? f.name = some f)

include hr

/-- A function that is validated, and not replaced here, foretells its exceptions within any budget. -/
theorem foretells_of_kept {f : Function} (hf : f ∈ Function.onTexts)
    (hallow : f.allows .validated = true) {p : Place}
    (hkept : ∀ m, f.rewrite args p ≠ .ok (some m)) (ha : f.arity.accepts args.length = true)
    (h : literals? args = some ls) {d : Nat} (hd : d + 1 ≤ o.maxDepth) (budget : Nat)
    (memo : Option MemoKey) (w : World) :
    Foretells (optimizeAt r o (budget + 1) d (.call f.name p args memo))
      (f.execute (ls.map Literal.toValue) p w).1 := by
  have hget := hr f (Function.mem_builtins_of_mem_onTexts hf)
  rw [optimizeAt_call h hd]
  exact foretells_of_validated hf hallow hget ha h (fun m hm => absurd hm (hkept m)) memo w

/-- What a replacement is replaced by is accepted. -/
theorem optimizeAt_replaced (h : literals? args = some ls) {d : Nat} (hd : d + 1 ≤ o.maxDepth)
    (budget : Nat) {p : Place} {m : Node} (hm : Function.replaceRewrite args p = .ok (some m)) :
    ∃ n, optimizeAt r o (budget + 1) d m = .ok n := by
  obtain ⟨source, q, text, q', subject, plain, expanded, pattern, replacement, rfl, -, -, -, -, -,
    rfl⟩ := Function.replaceRewrite_eq_some hm
  obtain ⟨-, -, ls, -, h, rfl⟩ := literals?_cons_eq_some h
  obtain ⟨-, -, ls, -, h, rfl⟩ := literals?_cons_eq_some h
  obtain ⟨l, q'', -, rfl, -, -⟩ := literals?_cons_eq_some h
  have hmem : Function.replace ∈ Function.onTexts := by simp [Function.onTexts]
  have hliterals : literals? [.literal l q'', .literal (.string (String.ofList plain)) q,
      .literal (.string (String.ofList expanded)) q'] =
      some [l, .string (String.ofList plain), .string (String.ofList expanded)] := rfl
  obtain ⟨e, he, -⟩ | ⟨v, n, -, hn⟩ := foretells_of_kept hr hmem rfl (p := p)
    (fun _ h => by cases h) rfl hliterals hd budget none (.fresh Environment.empty)
  · cases he
  · exact ⟨n, hn⟩

end

/-- The replacement of a split, whose pattern is written as a literal. -/
theorem splitRewrite_literal (l : Literal) (q : Place) (rest : List Node) (p : Place) :
    Function.splitRewrite (.literal l q :: rest) p =
      (Function.patternOf l.toValue).map fun _ =>
        (Function.plainPattern? (.literal l q)).map fun plain =>
          .call "split" p (.literal (.string (String.ofList plain)) q :: rest) none := by
  have hpattern : Function.literalPattern? (.literal l q :: rest) =
      (Function.patternOf l.toValue).map some := rfl
  unfold Function.splitRewrite
  rw [hpattern]
  cases Function.patternOf l.toValue with
  | error e => rfl
  | ok pattern =>
      dsimp only [bind, Except.bind, Except.map]
      cases Function.plainPattern? (.literal l q) with
      | none => rfl
      | some plain => rfl

/-- A split is not validated; its replacement is all that is looked at. -/
theorem optimizeCall_regSplit (hget : r.get? "reg_split" = some .regSplit)
    (ha : Function.regSplit.arity.accepts args.length = true) (h : literals? args = some ls)
    (again : Node → Except CompileError Node) (p : Place) (memo : Option MemoKey) :
    optimizeCall r o again "reg_split" p args memo =
      ((raised (Function.raiseAt p (Function.splitRewrite args p))).bind fun m? =>
        m?.elim (.ok (.call "reg_split" p args
          (memoFor o .regSplit "reg_split" (some ls) memo))) again) :=
  optimizeCall_literals hget ha h again p memo

/-- **A split that is looked at foretells its exceptions.** -/
theorem foretells_regSplit (hr : ∀ f ∈ Registry.builtins, r.get? f.name = some f)
    (ha : Function.regSplit.arity.accepts args.length = true) (h : literals? args = some ls)
    (hexamined : Examined .regSplit args) {d : Nat} (hd : d + 1 ≤ o.maxDepth) (budget : Nat)
    (p : Place) (memo : Option MemoKey) (w : World) :
    Foretells (optimizeAt r o (budget + 2) d (.call "reg_split" p args memo))
      (Function.regSplit.execute (ls.map Literal.toValue) p w).1 := by
  have hget := hr .regSplit (by simp [Registry.builtins])
  rw [optimizeAt_call h hd, optimizeCall_regSplit hget ha h]
  cases args with
  | nil => cases ha
  | cons n rest =>
      obtain ⟨l, q, ls, rfl, hrest, rfl⟩ := literals?_cons_eq_some h
      rw [splitRewrite_literal]
      cases hp : Function.patternOf l.toValue with
      | error e =>
          refine Or.inl ⟨⟨e, p⟩, ?_, rfl⟩
          show Function.raiseAt p (Function.patternOf l.toValue >>= _) = _
          rw [hp]
          rfl
      | ok pattern =>
          obtain hallow | ⟨e, he⟩ | ⟨plain, hplain⟩ := hexamined
          · cases hallow
          · have he : (Function.patternOf l.toValue).map some = .error e := he
            rw [hp] at he
            cases he
          · have hplain : Function.plainPattern? (.literal l q) = some plain := hplain
            obtain ⟨source, q', hsource, hs, hne⟩ := Function.plainPattern?_eq_some hplain
            cases hsource
            rw [hplain]
            show Foretells (optimizeAt r o (budget + 1) d (.call Function.split.name p _ none))
              (Function.regSplit.execute (.string source :: ls.map Literal.toValue) p w).1
            rw [Function.execute_regSplit_plain hs hne hp]
            have hmem : Function.split ∈ Function.onTexts := by simp [Function.onTexts]
            have ha' : Function.split.arity.accepts
                (Node.literal (.string (String.ofList plain)) q :: rest).length = true := ha
            have hliterals : literals? (.literal (.string (String.ofList plain)) q :: rest) =
                some (.string (String.ofList plain) :: ls) := by
              rw [literals?, hrest]
              rfl
            exact foretells_of_kept hr hmem rfl (fun _ h => by cases h) ha' hliterals hd budget none w

/-- A split that is not looked at is accepted, whatever its limit is. -/
theorem optimizeAt_not_examined (hr : ∀ f ∈ Registry.builtins, r.get? f.name = some f)
    (ha : Function.regSplit.arity.accepts args.length = true) (h : literals? args = some ls)
    (hexamined : ¬ Examined .regSplit args) {d : Nat} (hd : d + 1 ≤ o.maxDepth) (budget : Nat)
    (p : Place) (memo : Option MemoKey) :
    optimizeAt r o (budget + 1) d (.call "reg_split" p args memo) =
      .ok (.call "reg_split" p args (memoFor o .regSplit "reg_split" (some ls) memo)) := by
  have hget := hr .regSplit (by simp [Registry.builtins])
  rw [optimizeAt_call h hd, optimizeCall_regSplit hget ha h]
  cases args with
  | nil => cases ha
  | cons n rest =>
      obtain ⟨l, q, ls, rfl, hrest, rfl⟩ := literals?_cons_eq_some h
      rw [splitRewrite_literal]
      cases hp : Function.patternOf l.toValue with
      | error e =>
          have he : (Function.patternOf l.toValue).map some = .error e := by rw [hp]; rfl
          exact absurd (Or.inr (Or.inl ⟨e, he⟩)) hexamined
      | ok pattern =>
          cases hplain : Function.plainPattern? (.literal l q) with
          | none => rfl
          | some plain => exact absurd (Or.inr (Or.inr ⟨plain, hplain⟩)) hexamined

/-! ## 5. Literal calls -/

/-- There are budgets for two replacements. -/
theorem budgetFor_eq_add_two (r : Registry) (n : Node) : ∃ budget, budgetFor r n = budget + 2 := by
  have hle : 1 * 2 ≤ budgetFor r n := Nat.mul_le_mul (Nat.le_add_left 1 _) (Nat.le_add_left 2 _)
  exact ⟨budgetFor r n - 2, by omega⟩

/-- **A literal call that the optimizer looks at foretells its exceptions.** -/
theorem foretells_of_examined (hr : ∀ f ∈ Registry.builtins, r.get? f.name = some f)
    {f : Function} (hf : f ∈ Function.onTexts) (ha : f.arity.accepts args.length = true)
    (h : literals? args = some ls) (hexamined : Examined f args) {d : Nat}
    (hd : d + 1 ≤ o.maxDepth) (budget : Nat) (p : Place) (memo : Option MemoKey) (w : World) :
    Foretells (optimizeAt r o (budget + 2) d (.call f.name p args memo))
      (f.execute (ls.map Literal.toValue) p w).1 := by
  rcases Function.allows_validated_or_eq_regSplit hf with hallow | rfl
  · have hget := hr f (Function.mem_builtins_of_mem_onTexts hf)
    rw [optimizeAt_call h hd]
    refine foretells_of_validated hf hallow hget ha h (fun m hm => ?_) memo w
    rcases Function.rewrite_eq_some (Function.mem_builtins_of_mem_onTexts hf) hm with
      ⟨-, hm⟩ | ⟨rfl, -⟩
    · exact optimizeAt_replaced hr h hd budget hm
    · cases hallow
  · exact foretells_regSplit hr ha h hexamined hd budget p memo w

/-- **A literal call is refused with an exception exactly when carrying it out raises that exception**,
    there is a level for its arguments, and the optimizer looks at it. -/
theorem optimizeNode_eq_exception_iff (hr : ∀ f ∈ Registry.builtins, r.get? f.name = some f)
    {f : Function} (hf : f ∈ Function.onTexts) (ha : f.arity.accepts args.length = true)
    (h : literals? args = some ls) (p : Place) (memo : Option MemoKey) (w : World)
    (e : Exception) :
    optimizeNode r o (.call f.name p args memo) = .error (.exception e) ↔
      (f.execute (ls.map Literal.toValue) p w).1 = .error e ∧ 2 ≤ o.maxDepth ∧
        Examined f args := by
  have hne : args ≠ [] := by
    rintro rfl
    cases (Function.accepts_zero hf).symm.trans ha
  unfold optimizeNode
  obtain ⟨budget, hbudget⟩ := budgetFor_eq_add_two r (.call f.name p args memo)
  rw [hbudget]
  by_cases hd : 2 ≤ o.maxDepth
  · by_cases hexamined : Examined f args
    · rw [(foretells_of_examined hr hf ha h hexamined hd budget p memo w).iff e]
      exact ⟨fun hx => ⟨hx, hd, hexamined⟩, And.left⟩
    · obtain rfl : f = .regSplit := by
        rcases Function.allows_validated_or_eq_regSplit hf with hallow | rfl
        · exact absurd (Or.inl hallow) hexamined
        · rfl
      have hok := optimizeAt_not_examined hr ha h hexamined hd (budget + 1) p memo
      constructor
      · intro hx
        cases hok.symm.trans hx
      · exact fun hx => absurd hx.2.2 hexamined
  · obtain ⟨q, hdeep⟩ := optimizeAt_arguments_too_deep h hne (Nat.not_le.1 hd) (budget + 1) f.name p
      memo
    constructor
    · intro hx
      cases hdeep.symm.trans hx
    · exact fun hx => absurd hx.2.1 hd

/-! ## 6. A limit that is no number -/

/-- The arguments of `reg_split(pattern, 'banana', 'many')`. -/
def badLimit (pattern : String) : List Node :=
  [.literal (.string pattern) default, .literal (.string "banana") default,
    .literal (.string "many") default]

/-- What carrying the call out raises. -/
def badLimitException : Exception := ⟨.notIntegerText "many", default⟩

/-- The limit is at fault if the pattern is in order. -/
theorem execute_badLimit {pattern : String} {q : Pattern}
    (hp : Function.patternOf (.string pattern) = .ok q) (w : World) :
    (Function.regSplit.execute [.string pattern, .string "banana", .string "many"] default w).1 =
      .error badLimitException := by
  have hlimit : Function.cutsFor (some (.string "many")) = .error (.notIntegerText "many") := by
    have htrim : Text.trim "many".toList = "many".toList := by
      simp [Text.trim, Text.isBlank, Text.inRanges, Text.blankRanges]
    have hparse : Decimal.parse? (String.ofList (Text.trim "many".toList)) = none := by
      rw [htrim, String.ofList_toList]
      rfl
    unfold Function.cutsFor
    dsimp only
    unfold Value.toInteger
    dsimp only
    rw [hparse]
    rfl
  show Function.raiseAt default (Function.patternOf (.string pattern) >>= fun _ =>
    Function.cutsFor (some (.string "many")) >>= _) = _
  rw [hp, hlimit]
  rfl

theorem patternOf_letter : ∃ p, Function.patternOf (.string "a") = .ok p := by
  have hparse : Pattern.Expr.parse {} (Pattern.expandQuotes "a".toList) =
      .ok (.char 'a', Pattern.Groups.empty) := by
    show Pattern.Reading.readAll ⟨Pattern.plainMode, [], [], [], Pattern.Groups.empty⟩ ['a'] = _
    rw [Pattern.Reading.readAll_char rfl (by decide)]
    exact Pattern.Reading.readAll_nil rfl
  show ∃ p, Function.compileText "a" ⟨false, false, false⟩ = .ok p
  unfold Function.compileText Pattern.compile
  rw [hparse]
  exact ⟨_, rfl⟩

theorem optimizeNode_eq_exception_iff_letter :
    Function.regSplit ∈ Function.onTexts ∧
      Function.regSplit.arity.accepts (badLimit "a").length = true ∧
      literals? (badLimit "a") = some [.string "a", .string "banana", .string "many"] ∧
      optimizeNode Registry.standard {} (.call "reg_split" default (badLimit "a") none) =
        .error (.exception badLimitException) := by
  have hmem : Function.regSplit ∈ Function.onTexts := by simp [Function.onTexts]
  obtain ⟨p, hp⟩ := patternOf_letter
  have hplain : (badLimit "a").head?.bind Function.plainPattern? = some ['a'] := by decide
  have hliterals : literals? (badLimit "a") =
      some [.string "a", .string "banana", .string "many"] := rfl
  refine ⟨hmem, rfl, hliterals, ?_⟩
  exact (optimizeNode_eq_exception_iff Registry.get?_name hmem rfl hliterals default none
    (.fresh Environment.empty) badLimitException).2
    ⟨execute_badLimit hp _, by decide, Or.inr (Or.inr ⟨_, hplain⟩)⟩

/-- **The split of `banana` at `a*` with the limit `many` is accepted**, and carrying it out raises an
    exception: the pattern means more than a text, so nothing looks at the limit. -/
theorem split_not_examined :
    optimizeNode Registry.standard {} (.call "reg_split" default (badLimit "a*") none) =
        .ok (.call "reg_split" default (badLimit "a*")
          (some ⟨"reg_split", [.string "a*", .string "banana", .string "many"]⟩)) ∧
      (Function.regSplit.execute [.string "a*", .string "banana", .string "many"] default
        (.fresh Environment.empty)).1 = .error badLimitException := by
  obtain ⟨p, hp, -⟩ := Function.patternOf_star
  have hnot : ¬ Examined .regSplit (badLimit "a*") := by
    rintro (hallow | ⟨e, he⟩ | ⟨plain, hplain⟩)
    · cases hallow
    · have he : (Function.patternOf (.string "a*")).map some = .error e := he
      rw [hp] at he
      cases he
    · have hnone : (badLimit "a*").head?.bind Function.plainPattern? = none := by decide
      cases hnone.symm.trans hplain
  refine ⟨?_, execute_badLimit hp _⟩
  unfold optimizeNode
  obtain ⟨budget, hbudget⟩ := budgetFor_eq_succ Registry.standard
    (.call "reg_split" default (badLimit "a*") none)
  rw [hbudget, optimizeAt_not_examined Registry.get?_name rfl rfl hnot (by decide)]
  rfl

end Optimizer

end CallScript
