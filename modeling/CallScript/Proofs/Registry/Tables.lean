import CallScript.Proofs.Registry.Lookup
import Mathlib.Data.List.Nodup

/-!
# Registries as ordered tables

Registering a function is done in steps: its name is looked up, then it is put behind the others, then
the function is put under it (`Registry.offer`). In between, the order and the functions do not belong
together; after it they do.

* `offer_of_contains` and `offer_of_not_contains`: a name that is taken is refused, and nothing is done;
* `IsTable` is what every registration preserves (`IsTable.registerNew`, `IsTable.extend`): the order
  lists the names under which functions are found, each of them once;
* `IsTable.isExtension`: what was accepted is listed behind what was there, and the first function that
  was registered under a name is the one that is found.
-/

namespace CallScript

namespace Registry

variable {r : Registry} {f : Function} {name : String}

/-! ## 1. Registering a function -/

/-- Work on a registry that is being built. When it is refused, what was done before stays done. -/
abbrev Building (α : Type) : Type := ExceptT Duplicate (StateM Registry) α

/-- Registers a function, step by step. -/
def registering (f : Function) : Building Unit := do
  let r ← get
  if r.contains f.name then throw ⟨f.name⟩
  else do
    modify fun r => { r with order := r.order.push f.name }
    modify fun r => { r with functions := r.functions.insert f.name f }

/-- What registering a function answers, and the registry after it. -/
def offer (r : Registry) (f : Function) : Except Duplicate Unit × Registry := (registering f).run.run r

/-- A name that is taken is refused, and nothing is done. -/
theorem offer_of_contains (h : r.contains f.name = true) : r.offer f = (.error ⟨f.name⟩, r) := by
  show (ite _ _ _ : Building Unit).run.run r = _
  rw [if_pos h]
  rfl

/-- A new name is put behind the others, and the function under it. -/
theorem offer_of_not_contains (h : r.contains f.name = false) :
    r.offer f = (.ok (), ⟨r.functions.insert f.name f, r.order.push f.name⟩) := by
  show (ite _ _ _ : Building Unit).run.run r = _
  rw [if_neg (by rw [h]; exact Bool.false_ne_true)]
  rfl

/-- The steps come to what `register` gives, and to the same registry where it is refused. -/
theorem offer_eq (r : Registry) (f : Function) :
    r.offer f =
      match r.register f with
      | .ok r' => (.ok (), r')
      | .error d => (.error d, r) := by
  unfold register
  cases h : r.contains f.name with
  | true => exact offer_of_contains h
  | false => exact offer_of_not_contains h

theorem offer_snd (r : Registry) (f : Function) : (r.offer f).2 = r.registerNew f := by
  rw [offer_eq, registerNew]
  cases r.register f <;> rfl

/-- Of functions that are registered one after the other, those that are not refused. -/
def accepted (r : Registry) : List Function → List Function
  | [] => []
  | f :: fs =>
    match r.offer f with
    | (.ok _, r) => f :: r.accepted fs
    | (.error _, r) => r.accepted fs

theorem registerNew_of_contains (h : r.contains f.name = true) : r.registerNew f = r := by
  rw [← offer_snd, offer_of_contains h]

theorem accepted_cons_of_contains (h : r.contains f.name = true) (fs : List Function) :
    r.accepted (f :: fs) = (r.registerNew f).accepted fs := by
  rw [accepted, ← offer_snd, offer_of_contains h]

theorem accepted_cons_of_not_contains (h : r.contains f.name = false) (fs : List Function) :
    r.accepted (f :: fs) = f :: (r.registerNew f).accepted fs := by
  rw [accepted, ← offer_snd, offer_of_not_contains h]

/-! ## 2. Ordered tables -/

/-- The order lists the names under which there are functions, each of them once, and the functions have
    these names. -/
structure IsTable (r : Registry) : Prop where
  nodup : r.names.Nodup
  mem_names_iff : ∀ name, name ∈ r.names ↔ name ∈ r.functions
  name_eq : ∀ name f, r.get? name = some f → f.name = name

theorem isTable_empty : empty.IsTable where
  nodup := List.nodup_nil
  mem_names_iff _ := ⟨nofun, fun h => absurd h Std.HashMap.not_mem_empty⟩
  name_eq name f h := by
    rw [get?_empty] at h
    cases h

theorem names_registerNew (h : r.contains f.name = false) :
    (r.registerNew f).names = r.names ++ [f.name] := by
  rw [← offer_snd, offer_of_not_contains h]
  exact Array.toList_push

/-- **A registration preserves an ordered table**, whether it is refused or not. -/
theorem IsTable.registerNew (hr : r.IsTable) (f : Function) : (r.registerNew f).IsTable := by
  cases h : r.contains f.name with
  | true => rwa [registerNew_of_contains h]
  | false =>
      have hnew : f.name ∉ r.names := by
        rw [hr.mem_names_iff, Std.HashMap.mem_iff_contains]
        exact Bool.eq_false_iff.1 h
      refine ⟨?_, fun name => ?_, fun name g hg => ?_⟩
      · rw [names_registerNew h, List.nodup_append]
        refine ⟨hr.nodup, List.nodup_singleton _, fun a ha b hb => ?_⟩
        rw [List.mem_singleton.1 hb]
        exact fun heq => hnew (heq ▸ ha)
      · rw [names_registerNew h, List.mem_append, List.mem_singleton, hr.mem_names_iff, ← offer_snd,
          offer_of_not_contains h, Std.HashMap.mem_insert, beq_iff_eq, or_comm, eq_comm]
      · rw [get?_registerNew] at hg
        rcases Option.or_eq_some_iff.1 hg with hg | ⟨-, hg⟩
        · exact hr.name_eq name g hg
        · split at hg
          · next hname => rwa [← Option.some.inj hg]
          · cases hg

/-- **Registries are ordered tables**, whatever is registered with them. -/
theorem IsTable.extend (hr : r.IsTable) (fs : List Function) : (r.extend fs).IsTable := by
  induction fs generalizing r with
  | nil => exact hr
  | cons f fs ih => exact ih (hr.registerNew f)

theorem isTable_standard : standard.IsTable := isTable_empty.extend builtins

/-- A name is taken if it is listed. -/
theorem IsTable.contains_eq (hr : r.IsTable) (name : String) :
    r.contains name = decide (name ∈ r.names) := by
  rw [Bool.eq_iff_iff, decide_eq_true_iff, hr.mem_names_iff, Std.HashMap.mem_iff_contains]
  rfl

/-- Under each name that is listed there is a function. -/
theorem IsTable.exists_of_mem_names (hr : r.IsTable) (h : name ∈ r.names) :
    ∃ f, r.get? name = some f :=
  ⟨_, Std.HashMap.getElem?_eq_some_getElem ((hr.mem_names_iff name).1 h)⟩

theorem IsTable.mem_names_of_get? (hr : r.IsTable) (h : r.get? name = some f) : name ∈ r.names :=
  (hr.mem_names_iff name).2 (Std.HashMap.mem_iff_isSome_getElem?.2 (Option.isSome_of_eq_some h))

/-- The functions that are listed are those that are found under their names. -/
theorem IsTable.mem_toList_iff (hr : r.IsTable) : f ∈ r.toList ↔ r.get? f.name = some f := by
  rw [toList, List.mem_filterMap]
  constructor
  · rintro ⟨name, -, hf⟩
    rwa [hr.name_eq name f hf]
  · exact fun hf => ⟨f.name, hr.mem_names_of_get? hf, hf⟩

/-- A registry finds the function that it lists under the name. -/
theorem IsTable.get?_eq_find? (hr : r.IsTable) (name : String) :
    r.get? name = r.toList.find? fun f => f.name = name := by
  cases hfind : r.toList.find? fun f => f.name = name with
  | some f =>
      obtain rfl : f.name = name := by simpa using List.find?_some hfind
      exact hr.mem_toList_iff.1 (List.mem_of_find?_eq_some hfind)
  | none =>
      rw [Option.eq_none_iff_forall_ne_some]
      intro f hf
      obtain rfl := hr.name_eq name f hf
      have hne := List.find?_eq_none.1 hfind f (hr.mem_toList_iff.2 hf)
      exact hne (decide_eq_true rfl)

/-- The functions are listed under their names. -/
theorem IsTable.map_name_toList (hr : r.IsTable) : r.toList.map Function.name = r.names := by
  have hall : ∀ names : List String, (∀ name ∈ names, name ∈ r.names) →
      (names.filterMap r.get?).map Function.name = names := by
    intro names
    induction names with
    | nil => exact fun _ => rfl
    | cons name names ih =>
        intro h
        obtain ⟨hname, hnames⟩ := List.forall_mem_cons.1 h
        obtain ⟨f, hf⟩ := hr.exists_of_mem_names hname
        rw [List.filterMap_cons_some hf, List.map_cons, ih hnames, hr.name_eq name f hf]
  exact hall r.names fun _ => id

/-- A function that is accepted is listed behind the others. -/
theorem IsTable.toList_registerNew (hr : r.IsTable) (h : r.contains f.name = false) :
    (r.registerNew f).toList = r.toList ++ [f] := by
  have hold : r.names.filterMap (r.registerNew f).get? = r.names.filterMap r.get? := by
    refine List.filterMap_congr fun name hname => ?_
    obtain ⟨g, hg⟩ := hr.exists_of_mem_names hname
    rw [get?_registerNew, hg, Option.some_or]
  have hnew : (r.registerNew f).get? f.name = some f := by
    have hnone : r.get? f.name = none := Std.HashMap.getElem?_eq_none_of_contains_eq_false h
    rw [get?_registerNew, hnone, Option.none_or, if_pos rfl]
  rw [toList, names_registerNew h, List.filterMap_append, hold, List.filterMap_cons_some hnew]
  rfl

/-- **The functions that are accepted are listed behind those that are there**, in the order in which
    they were registered. -/
theorem IsTable.toList_extend (hr : r.IsTable) (fs : List Function) :
    (r.extend fs).toList = r.toList ++ r.accepted fs := by
  induction fs generalizing r with
  | nil => exact (List.append_nil _).symm
  | cons f fs ih =>
      show ((r.registerNew f).extend fs).toList = _
      rw [ih (hr.registerNew f)]
      cases h : r.contains f.name with
      | true => rw [accepted_cons_of_contains h, registerNew_of_contains h]
      | false =>
          rw [accepted_cons_of_not_contains h, hr.toList_registerNew h, List.append_assoc]
          rfl

/-- A registry finds the first function that was registered under a name. -/
theorem IsTable.get?_extend_eq_find? (hr : r.IsTable) (fs : List Function) (name : String) :
    (r.extend fs).get? name = (r.toList ++ fs).find? fun f => f.name = name := by
  rw [get?_extend, hr.get?_eq_find?, List.find?_append]

/-! ## 3. Extensions -/

/-- What becomes of a registry when functions are registered with it, one after the other. -/
structure IsExtension (b r : Registry) (fs : List Function) : Prop where
  nodup : b.names.Nodup
  /-- What is listed is what is found. -/
  mem_names_iff : ∀ name, name ∈ b.names ↔ name ∈ b.functions
  /-- The functions that were there come first, then those that were accepted. -/
  toList_eq : b.toList = r.toList ++ r.accepted fs
  names_eq : b.names = b.toList.map Function.name
  size_eq : b.size = b.toList.length
  /-- The first function that was registered under a name is the one that is found. -/
  get?_eq : ∀ name, b.get? name = (r.toList ++ fs).find? fun f => f.name = name
  name_eq : ∀ name f, b.get? name = some f → f.name = name
  /-- A name that is taken is refused, and nothing is done. -/
  refuses : ∀ f, f.name ∈ b.names → b.offer f = (.error ⟨f.name⟩, b)
  accepts : ∀ f, f.name ∉ b.names → (b.offer f).1 = .ok ()

/-- **So it is with every ordered table.** -/
theorem IsTable.isExtension (hr : r.IsTable) (fs : List Function) : (r.extend fs).IsExtension r fs where
  nodup := (hr.extend fs).nodup
  mem_names_iff := (hr.extend fs).mem_names_iff
  toList_eq := hr.toList_extend fs
  names_eq := (hr.extend fs).map_name_toList.symm
  size_eq := by
    rw [← List.length_map Function.name, (hr.extend fs).map_name_toList]
    exact Array.length_toList.symm
  get?_eq := hr.get?_extend_eq_find? fs
  name_eq := (hr.extend fs).name_eq
  refuses f hf := offer_of_contains (by rw [(hr.extend fs).contains_eq, decide_eq_true hf])
  accepts f hf := by
    rw [offer_of_not_contains (by rw [(hr.extend fs).contains_eq, decide_eq_false hf])]

end Registry

end CallScript
