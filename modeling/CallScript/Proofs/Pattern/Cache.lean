import CallScript.Function.Pattern
import CallScript.Pattern.Cache

/-!
# Patterns that are kept

Calls ask a cache for patterns, one after the other (`Pattern.Request`). They cannot tell from the
answers that it is there, and a request that is refused leaves it as it was.

* `fetch_cases`: a pattern is kept already, or it is refused, or it is compiled now and kept from now
  on;
* `Sound` is what every request preserves (`Sound.answer`);
* `answers_compiled`: whatever was asked for, the answers are those of compiling each pattern anew;
* `patternThrough_eq`: so the functions on patterns may as well have theirs through a cache.
-/

namespace CallScript

namespace Pattern

/-! ## 1. Requests -/

/-- A call asks for the pattern of a text with flags. -/
structure Request where
  source : String
  flags : Flags
  place : Place

/-- The pattern compiled anew. What is wrong with it is raised at the place of the call. -/
def Request.compiled (q : Request) : Except Exception Pattern :=
  Function.raiseAt q.place (Function.compileText q.source q.flags)

namespace Cache

/-- What the call gets, and the cache after that. -/
def answer (c : Cache) (q : Request) : Except Exception Pattern × Cache :=
  let (found, c) := c.fetch q.source q.flags
  (Function.raiseAt q.place (found.mapError (Fault.pattern q.source)), c)

/-- What the calls get, one after the other. -/
def answers (c : Cache) : List Request → List (Except Exception Pattern)
  | [] => []
  | q :: qs => (c.answer q).1 :: (c.answer q).2.answers qs

/-- The cache after the calls. -/
def after (c : Cache) (qs : List Request) : Cache := qs.foldl (fun c q => (c.answer q).2) c

variable {c : Cache} {source : String} {flags : Flags}

/-! ## 2. One request -/

/-- The patterns that are there for the next one to go in. -/
def room (c : Cache) : Std.HashMap (String × Flags) Pattern :=
  if capacity ≤ c.size then ∅ else c.patterns

/-- What a cache does about a text and flags. -/
inductive FetchCase (c : Cache) (source : String) (flags : Flags) : Prop
  | kept {p : Pattern} (hp : c.patterns[(source, flags)]? = some p)
      (h : c.fetch source flags = (.ok p, c))
  | refused {e : Error} (he : compile source flags = .error e)
      (h : c.fetch source flags = (.error e, c))
  | added {p : Pattern} (hp : compile source flags = .ok p)
      (h : c.fetch source flags = (.ok p, ⟨c.room.insert (source, flags) p⟩))

/-- **A pattern is kept already, or it is refused, or it is compiled now and kept from now on.** -/
theorem fetch_cases (c : Cache) (source : String) (flags : Flags) : FetchCase c source flags := by
  cases hkept : c.patterns[(source, flags)]? with
  | some p =>
      refine .kept hkept ?_
      unfold fetch
      rw [hkept]
  | none =>
      cases hp : compile source flags with
      | error e =>
          refine .refused hp ?_
          unfold fetch
          rw [hkept, hp]
      | ok p =>
          refine .added hp ?_
          unfold fetch
          rw [hkept, hp]
          rfl

/-- The cache keeps no more than it may hold, and what it keeps was compiled from the text and the
    flags it is found by. -/
structure Sound (c : Cache) : Prop where
  size_le : c.size ≤ capacity
  compiled : ∀ source flags p, c.patterns[(source, flags)]? = some p → compile source flags = .ok p

theorem sound_empty : empty.Sound where
  size_le := Nat.zero_le _
  compiled source flags p hp := by
    rw [show empty.patterns[(source, flags)]? = none from Std.HashMap.getElem?_empty] at hp
    cases hp

theorem size_room_lt (c : Cache) : c.room.size < capacity := by
  unfold room
  split
  · exact Nat.zero_lt_of_lt (by decide : 0 < capacity)
  · next h => exact Nat.not_le.1 h

/-- What is there for the next pattern to go in was there before. -/
theorem getElem?_room {key : String × Flags} {p : Pattern} (h : c.room[key]? = some p) :
    c.patterns[key]? = some p := by
  unfold room at h
  split at h
  · rw [Std.HashMap.getElem?_empty] at h
    cases h
  · exact h

/-- A pattern that is compiled now goes into a cache, which stays sound. -/
theorem Sound.add (hc : c.Sound) {p : Pattern} (hp : compile source flags = .ok p) :
    Sound ⟨c.room.insert (source, flags) p⟩ where
  size_le := Nat.le_trans Std.HashMap.size_insert_le (size_room_lt c)
  compiled source' flags' p' h := by
    dsimp only at h
    rw [Std.HashMap.getElem?_insert] at h
    split at h
    · next hkey =>
      obtain ⟨rfl, rfl⟩ := Prod.mk.inj (eq_of_beq hkey)
      obtain rfl : p = p' := Option.some.inj h
      exact hp
    · exact hc.compiled _ _ _ (getElem?_room h)

theorem compileText_eq (source : String) (flags : Flags) :
    Function.compileText source flags = (compile source flags).mapError (Fault.pattern source) := by
  unfold Function.compileText
  cases compile source flags <;> rfl

/-- **A request preserves a sound cache**, and it is answered as if there were none. -/
theorem Sound.answer (hc : c.Sound) (q : Request) :
    (c.answer q).1 = q.compiled ∧ (c.answer q).2.Sound := by
  unfold Cache.answer Request.compiled
  rw [compileText_eq]
  cases fetch_cases c q.source q.flags with
  | kept hp h =>
      rw [h, hc.compiled _ _ _ hp]
      exact ⟨rfl, hc⟩
  | refused he h =>
      rw [h, he]
      exact ⟨rfl, hc⟩
  | added hp h =>
      rw [h, hp]
      exact ⟨rfl, hc.add hp⟩

/-- **A request that is refused leaves the cache as it was**, also when it is full. -/
theorem answer_of_error {q : Request} {e : Exception} (h : (c.answer q).1 = .error e) :
    (c.answer q).2 = c := by
  unfold Cache.answer at h ⊢
  cases fetch_cases c q.source q.flags with
  | kept _ hfetch => rw [hfetch]
  | refused _ hfetch => rw [hfetch]
  | added _ hfetch =>
      rw [hfetch] at h
      cases h

/-! ## 3. Requests one after the other -/

/-- A sound cache is sound after any requests. -/
theorem Sound.after (hc : c.Sound) (qs : List Request) : (c.after qs).Sound := by
  induction qs generalizing c with
  | nil => exact hc
  | cons q qs ih => exact ih (hc.answer q).2

/-- A sound cache answers any requests as if there were none. -/
theorem Sound.answers (hc : c.Sound) (qs : List Request) :
    c.answers qs = qs.map Request.compiled := by
  induction qs generalizing c with
  | nil => rfl
  | cons q qs ih =>
      obtain ⟨hanswer, hsound⟩ := hc.answer q
      rw [Cache.answers, hanswer, ih hsound, List.map_cons]

/-- **Whatever was asked for, each call gets the pattern that is compiled from its own text and flags,
    or what is wrong with it at its own place.** The cache never keeps more than 512 patterns, each under
    what it was compiled from, and a call that fails leaves it as it was. -/
theorem answers_compiled (qs : List Request) :
    empty.answers qs = qs.map Request.compiled ∧
      (empty.after qs).size ≤ 512 ∧
      (∀ source flags p, (empty.after qs).patterns[(source, flags)]? = some p →
        compile source flags = .ok p) ∧
      ∀ q e, ((empty.after qs).answer q).1 = .error e →
        e.place = q.place ∧ ((empty.after qs).answer q).2 = empty.after qs := by
  have hsound := sound_empty.after qs
  refine ⟨sound_empty.answers qs, hsound.size_le, hsound.compiled, fun q e he => ?_⟩
  refine ⟨?_, answer_of_error he⟩
  rw [(hsound.answer q).1, Request.compiled] at he
  cases hfault : Function.compileText q.source q.flags with
  | error fault =>
      rw [hfault] at he
      cases he
      rfl
  | ok p =>
      rw [hfault] at he
      cases he

end Cache

end Pattern

/-! ## 4. Pattern arguments -/

namespace Function

open Pattern (Cache)

/-- The text and the flags that a pattern argument gives. -/
def keyOfPattern : Value → Except Fault (String × Pattern.Flags)
  | .array t =>
    match t.get? (.index 0) with
    | none => .error .patternMissing
    | some source =>
      match t.get? (.index 1) with
      | none => .ok (source.render, {})
      | some .null => .ok (source.render, {})
      | some v => (flagsOf v).map fun flags => (source.render, flags)
  | v => .ok (v.render, {})

/-- The pattern of a call, through a cache, and the cache after that. -/
def patternThrough (c : Cache) (v : Value) (place : Place) : Except Exception Pattern × Cache :=
  match keyOfPattern v with
  | .ok (source, flags) => c.answer ⟨source, flags, place⟩
  | .error fault => (.error ⟨fault, place⟩, c)

/-- The pattern that a value stands for is that of its text and flags. -/
theorem patternOf_eq (v : Value) :
    patternOf v = (keyOfPattern v).bind fun key => compileText key.1 key.2 := by
  cases v with
  | array t =>
      unfold patternOf keyOfPattern
      dsimp only
      generalize t.get? (.index 0) = source?, t.get? (.index 1) = flags?
      rcases source? with _ | source
      · rfl
      · have hread : ∀ x : Except Fault Pattern.Flags, (x >>= compileText source.render) =
            (x.map fun flags => (source.render, flags)).bind fun key => compileText key.1 key.2 := by
          intro x
          cases x <;> rfl
        rcases flags? with _ | v
        · rfl
        · cases v with
          | null => rfl
          | _ => exact hread (flagsOf _)
  | _ => rfl

/-- **Through a cache a call gets the pattern that its argument stands for**, or what is wrong with it
    at the place of the call. -/
theorem patternThrough_eq {c : Cache} (hc : c.Sound) (v : Value) (place : Place) :
    (patternThrough c v place).1 = raiseAt place (patternOf v) ∧ (patternThrough c v place).2.Sound := by
  rw [patternOf_eq]
  unfold patternThrough
  cases keyOfPattern v with
  | error fault => exact ⟨rfl, hc⟩
  | ok key => exact hc.answer ⟨key.1, key.2, place⟩

end Function

end CallScript
