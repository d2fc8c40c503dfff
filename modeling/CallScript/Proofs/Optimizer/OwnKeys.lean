import CallScript.Proofs.Optimizer.Preserved
import CallScript.Proofs.Optimizer.Soundness

/-!
# Optimized programs have their own keys

The optimizer is the only one to give memo keys. A function that puts an expression in the place of
a call has none to give: it builds nodes without keys, and takes over parts of the arguments with the
keys that they have (`Node.BuiltFrom`). If it does not change such a part and leave it its key
(`Registry.TakesKeys`), every memo key of an optimized program is the key of its call. Nothing prevents
a function from doing so: the optimizer leaves a node the key that it has.

* `Node.BuiltFrom.takesKeys`: what is built in this way has its keys from the arguments, with their
  calls, and so do the functions of the language (`Registry.takesKeys_standard`);
* `Registry.TakesKeys.keepsOwnKeys`: this keeps keys in order;
* `Optimized.carriesOwnKeys`: in an optimized program, every memo key is that of its call, if the
  functions of the optimizer keep keys in order;
* `not_keepsOwnKeys_appending`: a function that does not keep them, although what it puts in the place
  of a call has the same value (`execute_appendTo`).
-/

namespace CallScript

open Node (CarriesOwnKey EveryIn everyIn_iff_parts every_iff_parts keysAll mem_keysAll mem_partsAll
  partsAll)

/-! ## 1. Expressions in the place of calls -/

/-- The expression is built of literals, of calls without memo keys, and of parts of the arguments. -/
inductive Node.BuiltFrom (args : List Node) : Node → Prop
  | argument {n : Node} (h : n ∈ args) : BuiltFrom args n
  | part {name : String} {p : Place} {ms : List Node} {memo : Option MemoKey} {n : Node}
      (h : BuiltFrom args (.call name p ms memo)) (hn : n ∈ ms) : BuiltFrom args n
  | literal (v : Literal) (p : Place) : BuiltFrom args (.literal v p)
  | call (name : String) (p : Place) {ms : List Node} (h : ∀ n ∈ ms, BuiltFrom args n) :
      BuiltFrom args (.call name p ms none)

/-- Each memo key in the expression is that of a part of the arguments with the same name and the same
    literal arguments. Its place may be another one. -/
def Node.TakesKeys (n : Node) (args : List Node) : Prop :=
  ∀ m ∈ n.parts, ∀ key, m.memo? = some key →
    ∃ a ∈ partsAll args, a.memo? = some key ∧ a.memoKey? = m.memoKey?

/-- What is built of literals, of calls without keys and of parts of the arguments takes its keys from
    the arguments. -/
theorem Node.BuiltFrom.takesKeys {args : List Node} {n : Node} (h : BuiltFrom args n) :
    n.TakesKeys args := by
  induction h with
  | argument h => exact fun m hm key hkey => ⟨m, mem_partsAll.2 ⟨_, h, hm⟩, hkey, rfl⟩
  | part _ hn ih => exact fun m hm => ih m (List.mem_cons_of_mem _ (mem_partsAll.2 ⟨_, hn, hm⟩))
  | literal v p =>
      intro m hm key hkey
      obtain rfl := List.mem_singleton.1 hm
      cases hkey
  | call name p _ ih =>
      intro m hm key hkey
      rcases List.mem_cons.1 hm with rfl | hm
      · cases hkey
      · obtain ⟨n, hn, hm⟩ := mem_partsAll.1 hm
        exact ih n hn m hm key hkey

namespace Registry

/-- What the functions put in the place of calls has no memo keys but those of the arguments. Only those
    functions count whose calls may be replaced. -/
def CopiesKeys (r : Registry) : Prop :=
  ∀ name f, r.get? name = some f → f.allows .rewritten = true →
    ∀ args p n, f.rewrite args p = .ok (some n) → keysAll [n] ⊆ keysAll args

/-- What the functions put in the place of calls takes its memo keys from the arguments, with their
    calls. Only those functions count whose calls may be replaced. -/
def TakesKeys (r : Registry) : Prop :=
  ∀ name f, r.get? name = some f → f.allows .rewritten = true →
    ∀ args p n, f.rewrite args p = .ok (some n) → n.TakesKeys args

/-- What the functions put in the place of calls has its own keys, where the arguments have. Only those
    functions count whose calls may be replaced. -/
def KeepsOwnKeys (r : Registry) : Prop :=
  ∀ name f, r.get? name = some f → f.allows .rewritten = true →
    ∀ args p n, f.rewrite args p = .ok (some n) →
    ∀ d, EveryIn (fun _ => CarriesOwnKey) (d + 1) args → n.Every (fun _ => CarriesOwnKey) d

/-- A key that is taken along with its call is a key of the arguments. -/
theorem TakesKeys.copiesKeys {r : Registry} (h : r.TakesKeys) : r.CopiesKeys := by
  intro name f hf hw args p n hn key hkey
  obtain ⟨m, hm, hkey⟩ := mem_keysAll.1 hkey
  obtain ⟨a, ha, hakey, -⟩ := h name f hf hw args p n hn m (Node.partsAll_singleton n ▸ hm) key hkey
  exact mem_keysAll.2 ⟨a, ha, hakey⟩

/-- **A key that is taken along with its call is still the key of its call.** -/
theorem TakesKeys.keepsOwnKeys {r : Registry} (h : r.TakesKeys) : r.KeepsOwnKeys := by
  intro name f hf hw args p n hn d hargs
  refine every_iff_parts.2 fun m hm key hkey => ?_
  obtain ⟨a, ha, hakey, hcall⟩ := h name f hf hw args p n hn m hm key hkey
  rw [← hcall]
  exact everyIn_iff_parts.1 hargs a ha key hakey

/-- The functions of the language build what they put in the place of calls. -/
theorem builtFrom_standard {name : String} {f : Function}
    (hf : Registry.standard.get? name = some f) {args : List Node} {p : Place} {n : Node}
    (hn : f.rewrite args p = .ok (some n)) : Node.BuiltFrom args n := by
  obtain ⟨name', ms, rfl, -, hms⟩ := Function.shape_of_rewrite (Registry.mem_builtins hf).1 hn
  refine .call name' p fun m hm => ?_
  rcases hms m hm with hm | ⟨v, q, rfl⟩
  · exact .argument hm
  · exact .literal v q

theorem takesKeys_standard : Registry.standard.TakesKeys :=
  fun _ _ hf _ _ _ _ hn => (builtFrom_standard hf hn).takesKeys

theorem copiesKeys_standard : Registry.standard.CopiesKeys := takesKeys_standard.copiesKeys

theorem keepsOwnKeys_standard : Registry.standard.KeepsOwnKeys := takesKeys_standard.keepsOwnKeys

end Registry

/-! ## 2. Programs -/

namespace Optimizer

/-- **The optimizer gives no other keys than those of the calls.** -/
theorem preserved_carriesOwnKey {r : Registry} (hr : r.KeepsOwnKeys) {o : Options} :
    Preserved r o fun _ => CarriesOwnKey where
  call {_ _ _ _ _ _ f} _ hargs h _ := carriesOwnKey_memoFor f h hargs
  replaced hf hw _ hm _ hall := hr _ _ hf hw _ _ _ hm _ hall

/-- The program is what an optimizer, whose functions keep keys in order, made of one whose memo keys, if
    it had any, were those of its calls. -/
def Optimized (p : Program) : Prop :=
  ∃ r o q, Registry.KeepsOwnKeys r ∧ (∀ n ∈ q, n.Every (fun _ => CarriesOwnKey) 1) ∧
    optimize r o q = .ok p

/-- **In an optimized program, every memo key is that of its call.** -/
theorem Optimized.carriesOwnKeys {p : Program} (h : Optimized p) :
    ∀ n ∈ p, n.Every (fun _ => CarriesOwnKey) 1 := by
  obtain ⟨r, o, q, hr, hq, hp⟩ := h
  exact (becomesProgram_optimize hp).every (preserved_carriesOwnKey hr) hq

/-- A program without memo keys may be optimized. -/
theorem optimized_of_unkeyed {r : Registry} (hr : r.KeepsOwnKeys) {o : Options} {q p : Program}
    (hq : ∀ n ∈ q, n.Unkeyed) (h : optimize r o q = .ok p) : Optimized p :=
  ⟨r, o, q, hr, fun n hn => (hq n hn).imp fun _ _ => Node.carriesOwnKey_of_memo?_eq_none, h⟩

/-! ## 3. The key of another call -/

/-- A function that puts a value behind those of an array. If the array comes from a call of `array`,
    that call takes the place: it is taken over with its memo key, and the value becomes one more
    argument of it. -/
def appendTo : Function :=
  Function.ofPure
    { name := "append"
      arity := .fixed 2
      params := ["array", "value"]
      docs := ""
      examples := []
      thrown := [.cast]
      treatments := [.rewritten] }
    (fun args =>
      match Function.arg args 0 with
      | .array t => .ok (.array (t.push (Function.arg args 1)))
      | v => .error (.notArray v.kindName))
    Function.noCheck
    (fun args _ =>
      match args with
      | [.call name p ms memo, n] =>
        .ok (if name = "array" then some (.call name p (ms ++ [n]) memo) else none)
      | _ => .ok none)

/-- The function, and that of the language that makes arrays. -/
def appending : Registry := Registry.empty.extend [appendTo, .array]

theorem get?_appending_array : appending.get? "array" = some .array :=
  Registry.get?_extend_empty _ _

/-- What takes the place of a call has the value that the call would have. -/
theorem execute_appendTo (vs : List Value) (v : Value) (p q : Place) (w : World) :
    appendTo.execute [Value.ofList vs, v] p w = Function.array.execute (vs ++ [v]) q w := by
  show (Except.ok (Value.array ((Table.ofList vs).push v)), w) = (.ok (Value.ofList (vs ++ [v])), w)
  rw [Value.ofList, Table.ofList, Table.ofList, List.foldl_append]
  rfl

theorem rewrite_appendTo {args : List Node} {p : Place} {n : Node}
    (h : appendTo.rewrite args p = .ok (some n)) :
    ∃ q ms m memo, args = [.call "array" q ms memo, m] ∧ n = .call "array" q (ms ++ [m]) memo := by
  simp only [appendTo, Function.ofPure] at h
  split at h
  · next name q ms memo m =>
    by_cases hname : name = "array"
    · subst hname
      rw [if_pos rfl] at h
      cases h
      exact ⟨q, ms, m, memo, rfl, rfl⟩
    · rw [if_neg hname] at h
      cases h
  · cases h

/-- The function makes no keys. -/
theorem copiesKeys_appending : appending.CopiesKeys := by
  intro name f hf hw args p n hn
  obtain rfl | rfl : f = appendTo ∨ f = .array := by
    rw [appending, Registry.get?_extend_empty] at hf
    simpa using List.mem_of_find?_eq_some hf
  · obtain ⟨q, ms, m, memo, rfl, rfl⟩ := rewrite_appendTo hn
    have hkeys : keysAll [.call "array" q (ms ++ [m]) memo] =
        keysAll [.call "array" q ms memo, m] := by
      simp only [keysAll, partsAll, Node.parts, Node.partsAll_append, List.append_nil]
      rfl
    rw [hkeys]
    exact List.Subset.refl _
  · cases hw

/-- A letter. -/
def letter (s : String) : Node := .literal (.string s) default

/-- A call of `array`. -/
def arrayCall (args : List Node) (memo : Option MemoKey) : Node := .call "array" default args memo

/-- The key of the array of a letter. -/
def letterKey (s : String) : MemoKey := ⟨"array", [.string s]⟩

/-- The array of a letter, with its key. -/
def letterCall (s : String) : Node := arrayCall [letter s] (some (letterKey s))

theorem literals?_map_letter (ss : List String) :
    Node.literals? (ss.map letter) = some (ss.map .string) := by
  induction ss with
  | nil => rfl
  | cons s ss ih =>
      rw [List.map_cons, letter, Node.literals?, ih]
      rfl

/-- An array of letters is kept under the key that its call has. -/
theorem kept_arrayCall (ss : List String) {limit d : Nat} (hd : d + 1 ≤ limit) {key : MemoKey}
    {t : Session} (ht : t.memo[key]? = none) :
    ∃ t', (Evaluator.evalAt appending limit d (arrayCall (ss.map letter) (some key))).result t =
        (.ok (Value.ofList (ss.map .string)), t') ∧
      t'.memo[key]? = some (Value.ofList (ss.map .string)) := by
  have hvalues : (ss.map Literal.string).map Literal.toValue = ss.map Value.string :=
    List.map_map
  refine Evaluator.kept_of_literals get?_appending_array (literals?_map_letter ss) rfl hd ?_ ht
  intro w
  rw [hvalues]
  rfl

/-- The expression is put behind the letter a. -/
def appendCall (n : Node) : Node :=
  .call "append" default [arrayCall [letter "a"] none, n] none

/-- **But it does not keep keys in order.** The array of the letter a has its own key, and leaves it
    to that of two letters. -/
theorem not_keepsOwnKeys_appending : ¬ appending.KeepsOwnKeys := by
  intro h
  have hget : appending.get? "append" = some appendTo := Registry.get?_extend_empty _ _
  have hargs : EveryIn (fun _ => CarriesOwnKey) 2 [letterCall "a", letter "b"] := by
    refine ⟨⟨?_, nofun, trivial⟩, nofun, trivial⟩
    intro key hkey
    cases hkey
    rfl
  have hown := (h "append" appendTo hget rfl [letterCall "a", letter "b"] default
    (arrayCall [letter "a", letter "b"] (some (letterKey "a"))) rfl 1 hargs).1
  cases hown (letterKey "a") rfl

end Optimizer

end CallScript
