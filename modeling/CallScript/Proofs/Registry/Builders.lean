import CallScript.Proofs.Registry.Tables

/-!
# Building registries

A host makes builders, registers functions with them and builds registries from them, in any order
(`Workshop`). A builder starts with nothing or with the functions of a registry, and it is used up when a
registry is built from it.

* `Sound.after`: whatever a host does, all its registries are ordered tables;
* `builder?_after`: a builder is changed by what is registered with it, and by nothing else;
* `registries_after`: registries stay what they are;
* `builds_in_order`: so a registry that is built is the extension of the one that its builder began with.
-/

namespace CallScript

/-! ## 1. What a host does -/

/-- The builders and the registries of a host, in the order in which they came to be. A builder is used
    up when a registry is built from it. -/
structure Workshop where
  builders : List (Option Registry)
  registries : List Registry

namespace Workshop

/-- What a host does. -/
inductive Step
  /-- Makes a builder without functions. -/
  | start
  /-- Makes a builder with the functions of a registry. -/
  | extend (i : Nat)
  | register (i : Nat) (f : Function)
  | build (i : Nat)

/-- Nothing has been made. -/
def empty : Workshop := ⟨[], []⟩

/-- What stands in a builder that is not used up. -/
def builder? (w : Workshop) (i : Nat) : Option Registry := w.builders[i]?.join

/-- What there is after a step. A step with a builder or a registry that there is not does nothing. -/
def perform (w : Workshop) : Step → Workshop
  | .start => { w with builders := w.builders ++ [some .empty] }
  | .extend i =>
    match w.registries[i]? with
    | some r => { w with builders := w.builders ++ [some ⟨r.functions, r.order⟩] }
    | none => w
  | .register i f =>
    match w.builder? i with
    | some b => { w with builders := w.builders.set i (some (b.offer f).2) }
    | none => w
  | .build i =>
    match w.builder? i with
    | some b => ⟨w.builders.set i none, w.registries ++ [b]⟩
    | none => w

/-- What there is after steps, one after the other. -/
def after (w : Workshop) (steps : List Step) : Workshop := steps.foldl perform w

/-- The step makes a builder, and the registry stands in it. -/
inductive Begins (w : Workshop) : Step → Registry → Prop
  | start : Begins w .start .empty
  | extend {i : Nat} {r : Registry} (h : w.registries[i]? = some r) : Begins w (.extend i) r

variable {w : Workshop} {r b : Registry} {i : Nat}

/-- **Registries stay what they are**, and where they are. -/
theorem registries_perform (w : Workshop) (step : Step) :
    w.registries <+: (w.perform step).registries := by
  cases step with
  | start => exact List.prefix_rfl
  | extend i =>
      unfold perform
      dsimp only
      split <;> exact List.prefix_rfl
  | register i f =>
      unfold perform
      dsimp only
      split <;> exact List.prefix_rfl
  | build i =>
      unfold perform
      dsimp only
      split
      · exact List.prefix_append _ _
      · exact List.prefix_rfl

theorem registries_after (w : Workshop) (steps : List Step) :
    w.registries <+: (w.after steps).registries := by
  induction steps generalizing w with
  | nil => exact List.prefix_rfl
  | cons step steps ih => exact (registries_perform w step).trans (ih (w.perform step))

/-- All registries are ordered tables, those in the builders included. -/
structure Sound (w : Workshop) : Prop where
  builders : ∀ b, some b ∈ w.builders → b.IsTable
  registries : ∀ r ∈ w.registries, r.IsTable

theorem sound_empty : empty.Sound where
  builders := nofun
  registries := nofun

theorem mem_builders_of_builder? (h : w.builder? i = some b) : some b ∈ w.builders :=
  List.mem_of_getElem? (Option.join_eq_some_iff.1 h)

theorem Sound.perform (hw : w.Sound) (step : Step) : (w.perform step).Sound := by
  unfold Workshop.perform
  cases step with
  | start =>
      refine ⟨fun b hb => ?_, hw.registries⟩
      rcases List.mem_append.1 hb with hb | hb
      · exact hw.builders b hb
      · obtain rfl := Option.some.inj (List.mem_singleton.1 hb)
        exact Registry.isTable_empty
  | extend i =>
      dsimp only
      split
      · next r hr =>
        refine ⟨fun b hb => ?_, hw.registries⟩
        rcases List.mem_append.1 hb with hb | hb
        · exact hw.builders b hb
        · obtain rfl := Option.some.inj (List.mem_singleton.1 hb)
          exact hw.registries r (List.mem_of_getElem? hr)
      · exact hw
  | register i f =>
      dsimp only
      split
      · next b hb =>
        refine ⟨fun b' hb' => ?_, hw.registries⟩
        rcases List.mem_or_eq_of_mem_set hb' with hb' | hb'
        · exact hw.builders b' hb'
        · rw [Option.some.inj hb', Registry.offer_snd]
          exact (hw.builders b (mem_builders_of_builder? hb)).registerNew f
      · exact hw
  | build i =>
      dsimp only
      split
      · next b hb =>
        refine ⟨fun b' hb' => ?_, fun r hr => ?_⟩
        · rcases List.mem_or_eq_of_mem_set hb' with hb' | hb'
          · exact hw.builders b' hb'
          · cases hb'
        · rcases List.mem_append.1 hr with hr | hr
          · exact hw.registries r hr
          · rw [List.mem_singleton.1 hr]
            exact hw.builders b (mem_builders_of_builder? hb)
      · exact hw

/-- **Whatever a host does, its registries are ordered tables.** -/
theorem Sound.after (hw : w.Sound) (steps : List Step) : (w.after steps).Sound := by
  induction steps generalizing w with
  | nil => exact hw
  | cons step steps ih => exact ih (hw.perform step)

/-- A new builder stands behind the others, and nothing else is done. -/
theorem perform_of_begins {first : Step} (h : w.Begins first r) :
    w.perform first = ⟨w.builders ++ [some r], w.registries⟩ := by
  cases h with
  | start => rfl
  | extend hr =>
      unfold perform
      dsimp only
      rw [hr]

/-- The functions that steps register with a builder. -/
def offered (i : Nat) (steps : List Step) : List Function :=
  steps.filterMap fun
    | .register j f => if j = i then some f else none
    | _ => none

/-- In a builder that stays one, there is what was there and what is registered with it. -/
theorem builder?_perform (h : w.builder? i = some b) {step : Step} (hstep : step ≠ .build i) :
    (w.perform step).builder? i = some (b.extend (offered i [step])) := by
  have hlt : i < w.builders.length := (List.getElem?_eq_some_iff.1 (Option.join_eq_some_iff.1 h)).1
  have happend : ∀ bs rs, (Workshop.mk (w.builders ++ bs) rs).builder? i = some b := by
    intro bs rs
    rw [builder?, List.getElem?_append_left hlt]
    exact h
  have hset : ∀ j b' rs, j ≠ i → (Workshop.mk (w.builders.set j b') rs).builder? i = some b := by
    intro j b' rs hj
    rw [builder?, List.getElem?_set_ne hj]
    exact h
  unfold perform
  cases step with
  | start => exact happend _ _
  | extend j =>
      dsimp only
      split
      · exact happend _ _
      · exact h
  | register j f =>
      dsimp only
      by_cases hj : j = i
      · subst hj
        have hoffered : offered j [.register j f] = [f] := List.filterMap_cons_some (if_pos rfl)
        rw [h, hoffered]
        dsimp only
        rw [builder?, List.getElem?_set_self hlt, Registry.offer_snd]
        rfl
      · have hoffered : offered i [.register j f] = [] := List.filterMap_cons_none (if_neg hj)
        rw [hoffered]
        split
        · exact hset _ _ _ hj
        · exact h
  | build j =>
      have hj : j ≠ i := fun heq => hstep (heq ▸ rfl)
      dsimp only
      split
      · exact hset _ _ _ hj
      · exact h

/-- **A builder is changed by what is registered with it, and by nothing else.** -/
theorem builder?_after (h : w.builder? i = some b) {steps : List Step} (hsteps : .build i ∉ steps) :
    (w.after steps).builder? i = some (b.extend (offered i steps)) := by
  induction steps generalizing w b with
  | nil => exact h
  | cons step steps ih =>
      rw [List.mem_cons, not_or] at hsteps
      obtain ⟨hstep, hsteps⟩ := hsteps
      show ((w.perform step).after steps).builder? i = _
      have hoffered : offered i (step :: steps) = offered i [step] ++ offered i steps :=
        List.filterMap_append (l := [step])
      rw [ih (builder?_perform h (Ne.symm hstep)) hsteps, hoffered]
      exact congrArg some (List.foldl_append ..).symm

/-- What is built from a builder is the registry that stands in it. -/
theorem registries_build (h : w.builder? i = some b) :
    (w.perform (.build i)).registries = w.registries ++ [b] := by
  unfold perform
  dsimp only
  rw [h]

/-- **A registry that is built lists the functions that its builder began with, and behind them those
    that were accepted**, whatever a host did before and does meanwhile. The registries that were there
    stay what they were. -/
theorem builds_in_order {steps more : List Step} {w w' : Workshop} {first : Step} {r : Registry}
    (hw : empty.after steps = w) (hfirst : w.Begins first r) (hw' : (w.perform first).after more = w')
    (hmore : .build w.builders.length ∉ more) :
    ∃ b, w'.builder? w.builders.length = some b ∧ b.IsExtension r (offered w.builders.length more) ∧
      (w'.perform (.build w.builders.length)).registries = w'.registries ++ [b] ∧
      w.registries <+: w'.registries := by
  subst hw hw'
  have hr : r.IsTable := by
    cases hfirst with
    | start => exact Registry.isTable_empty
    | extend hr => exact (sound_empty.after steps).registries r (List.mem_of_getElem? hr)
  have hbegun :
      ((empty.after steps).perform first).builder? (empty.after steps).builders.length = some r := by
    rw [perform_of_begins hfirst, builder?, List.getElem?_concat_length]
    rfl
  have hb := builder?_after hbegun hmore
  exact ⟨_, hb, hr.isExtension _, registries_build hb, registries_after _ (first :: more)⟩

/-- A registry with one function is extended, with that function again and with a new one, while another
    builder is at work. -/
theorem builds_in_order_twice :
    ∃ w r w' b, empty.after [.start, .register 0 .array, .build 0] = w ∧ w.Begins (.extend 0) r ∧
      (w.perform (.extend 0)).after
        [.register 1 .array, .start, .register 2 .console, .register 1 .split] = w' ∧
      w'.builder? 1 = some b ∧ b.names = ["array", "split"] ∧ b.get? "array" = some .array ∧
      r.names = ["array"] ∧ [r] <+: w'.registries := by
  have hw : empty.after [.start, .register 0 .array, .build 0] =
      ⟨[none], [Registry.empty.registerNew .array]⟩ := by
    rw [← Registry.offer_snd]
    rfl
  have hfirst : (Workshop.mk [none] [Registry.empty.registerNew .array]).Begins (.extend 0) _ :=
    .extend rfl
  have hmore : Step.build 1 ∉
      [.register 1 .array, .start, .register 2 .console, .register 1 .split] := by simp
  obtain ⟨b, hb, hext, -, hregistries⟩ := builds_in_order hw hfirst rfl hmore
  have htable := Registry.isTable_empty.registerNew .array
  have hnames : (Registry.empty.registerNew .array).names = ["array"] :=
    Registry.names_registerNew (Registry.isTable_empty.contains_eq _)
  have hlist : (Registry.empty.registerNew .array).toList = [.array] :=
    Registry.isTable_empty.toList_registerNew (Registry.isTable_empty.contains_eq _)
  have htaken : (Registry.empty.registerNew .array).contains Function.array.name = true := by
    rw [htable.contains_eq, hnames]
    rfl
  have hfree : (Registry.empty.registerNew .array).contains Function.split.name = false := by
    rw [htable.contains_eq, hnames]
    rfl
  have haccepted : (Registry.empty.registerNew .array).accepted [.array, .split] = [.split] := by
    rw [Registry.accepted_cons_of_contains htaken, Registry.registerNew_of_contains htaken,
      Registry.accepted_cons_of_not_contains hfree]
    rfl
  refine ⟨_, _, _, b, hw, hfirst, rfl, hb, ?_, ?_, hnames, hregistries⟩
  · rw [hext.names_eq, hext.toList_eq, hlist]
    exact congrArg (fun fs => ([Function.array] ++ fs).map Function.name) haccepted
  · rw [hext.get?_eq, hlist]
    rfl

end Workshop

end CallScript
