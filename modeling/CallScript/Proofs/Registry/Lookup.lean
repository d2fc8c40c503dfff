import CallScript.Registry

/-!
# Looking up functions

What a registry finds after functions were added to it: the first one that was registered under the
name. So the standard registry finds exactly the functions of the language.

What is found under a name is also listed under it (`Registry.Listed`), in every registry that was made by
adding functions.
-/

namespace CallScript.Registry

variable {r : Registry} {name : String} {f : Function}

theorem get?_empty : empty.get? name = none := Std.HashMap.getElem?_empty

/-- A name that is taken keeps its function. -/
theorem get?_registerNew (r : Registry) (f : Function) (name : String) :
    (r.registerNew f).get? name = (r.get? name).or (if f.name = name then some f else none) := by
  unfold registerNew register contains get?
  by_cases hc : r.functions.contains f.name
  · rw [if_pos hc]
    by_cases hn : f.name = name
    · obtain ⟨g, hg⟩ : ∃ g, r.functions[name]? = some g := by
        rw [← Option.isSome_iff_exists, ← Std.HashMap.contains_eq_isSome_getElem?, ← hn]
        exact hc
      show r.functions[name]? = _
      rw [hg]
      rfl
    · rw [if_neg hn, Option.or_none]
  · rw [if_neg hc]
    show (r.functions.insert f.name f)[name]? = _
    rw [Std.HashMap.getElem?_insert]
    by_cases hn : f.name = name
    · have hnone : r.functions[name]? = none := by
        rw [← hn]
        exact Std.HashMap.getElem?_eq_none_of_contains_eq_false (Bool.not_eq_true _ ▸ hc)
      rw [if_pos (by simpa using hn), if_pos hn, hnone]
      rfl
    · rw [if_neg (by simpa using hn), if_neg hn, Option.or_none]

theorem get?_extend (fs : List Function) (r : Registry) (name : String) :
    (r.extend fs).get? name = (r.get? name).or (fs.find? fun f => f.name = name) := by
  induction fs generalizing r with
  | nil => exact Option.or_none.symm
  | cons f fs ih =>
      show ((r.registerNew f).extend fs).get? name = _
      rw [ih, get?_registerNew, List.find?_cons]
      by_cases hn : f.name = name
      · rw [if_pos hn, decide_eq_true hn]
        cases r.get? name <;> rfl
      · rw [if_neg hn, decide_eq_false hn, Option.or_none]

/-- A registry of these functions finds the first one of the name. -/
theorem get?_extend_empty (fs : List Function) (name : String) :
    (empty.extend fs).get? name = fs.find? fun f => f.name = name := by
  rw [get?_extend, get?_empty, Option.none_or]

/-- **The standard registry finds the functions of the language**, each under its name. -/
theorem get?_standard (name : String) :
    standard.get? name = builtins.find? fun f => f.name = name := get?_extend_empty builtins name

theorem mem_builtins (h : standard.get? name = some f) : f ∈ builtins ∧ f.name = name := by
  rw [get?_standard] at h
  exact ⟨List.mem_of_find?_eq_some h, by simpa using List.find?_some h⟩

/-- Every function of the language is found under its name. -/
theorem get?_name (f : Function) (hf : f ∈ builtins) : standard.get? f.name = some f := by
  rw [get?_standard]
  simp only [builtins, List.mem_cons, List.not_mem_nil, or_false] at hf
  rcases hf with rfl | rfl | rfl | rfl | rfl | rfl | rfl | rfl | rfl | rfl | rfl
  all_goals rfl

theorem get?_regReplace : standard.get? "reg_replace" = some .regReplace :=
  get?_name .regReplace (by simp [builtins])

theorem get?_replace : standard.get? "replace" = some .replace :=
  get?_name .replace (by simp [builtins])

theorem get?_regSplit : standard.get? "reg_split" = some .regSplit :=
  get?_name .regSplit (by simp [builtins])

theorem get?_split : standard.get? "split" = some .split :=
  get?_name .split (by simp [builtins])

/-- Looking up a name answers what is true of every function of the language. -/
theorem forall_standard {P : Function → Prop} (h : ∀ f ∈ builtins, P f) :
    ∀ name f, standard.get? name = some f → P f :=
  fun _ f hf => h f (mem_builtins hf).1

/-- What is found after the functions of a host were added is one of them, or one of the language. -/
theorem mem_of_get?_extend {hosts : List Function} (h : (standard.extend hosts).get? name = some f) :
    f.name = name ∧ (f ∈ builtins ∨ f ∈ hosts) := by
  rw [get?_extend] at h
  rcases Option.or_eq_some_iff.1 h with h | ⟨-, h⟩
  · exact ⟨(mem_builtins h).2, .inl (mem_builtins h).1⟩
  · exact ⟨by simpa using List.find?_some h, .inr (List.mem_of_find?_eq_some h)⟩

/-- The names of the language mean what they mean without a host. -/
theorem get?_extend_of_standard {hosts : List Function} (h : standard.get? name = some f) :
    (standard.extend hosts).get? name = some f := by
  rw [get?_extend, h]
  rfl

/-- The registry lists the names under which it finds functions. -/
def Listed (r : Registry) : Prop := ∀ name f, r.get? name = some f → name ∈ r.names

theorem listed_empty : empty.Listed := by
  intro name f hf
  rw [get?_empty] at hf
  cases hf

theorem Listed.registerNew (hr : r.Listed) (f : Function) : (r.registerNew f).Listed := by
  intro name g hg
  by_cases hc : r.contains f.name = true
  · have hsame : r.registerNew f = r := by
      unfold Registry.registerNew register
      rw [if_pos hc]
    rw [hsame] at hg ⊢
    exact hr name g hg
  · have hnames : (r.registerNew f).names = r.names ++ [f.name] := by
      unfold Registry.registerNew register
      rw [if_neg hc]
      exact Array.toList_push
    rw [hnames]
    rw [get?_registerNew] at hg
    rcases Option.or_eq_some_iff.1 hg with hg | ⟨-, hg⟩
    · exact List.mem_append_left _ (hr name g hg)
    · split at hg
      · next hname => exact List.mem_append_right _ (hname ▸ List.mem_singleton_self _)
      · cases hg

/-- **A registry lists what it finds**, however it was made. -/
theorem Listed.extend (hr : r.Listed) (fs : List Function) : (r.extend fs).Listed := by
  induction fs generalizing r with
  | nil => exact hr
  | cons f fs ih => exact ih (hr.registerNew f)

theorem listed_standard : standard.Listed := listed_empty.extend builtins

end CallScript.Registry
