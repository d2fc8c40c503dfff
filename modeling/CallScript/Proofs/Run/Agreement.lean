import CallScript.Proofs.Run.Result

/-!
# Runs that cannot be told apart

Two sessions are alike (`Session.Alike`) if their hosts offer the same, if the same lines went to the
console since some point, and if what they keep is right: a kept result is the one that the call gives,
wherever and whenever it is carried out (`MemoKey.Gives`). Which results are kept, and which calls
were carried out, may differ.

Two runs agree (`Run.Agrees`) if from sessions that are alike they come to the same outcome and to
sessions that are alike. Agreement goes through steps one after the other (`Agrees.bind`), and runs may
be replaced by others one after the other (`Agrees.trans`).
-/

namespace CallScript

/-! ## 1. Kept results -/

/-- The call of a key gives the value, wherever it is carried out, and does nothing else. -/
def MemoKey.Gives (r : Registry) (key : MemoKey) (v : Value) : Prop :=
  ∃ f, r.get? key.name = some f ∧ f.arity.accepts key.args.length = true ∧
    ∀ p w, f.execute (key.args.map Literal.toValue) p w = (.ok v, w)

namespace Memo

/-- Every kept result has the property. -/
def All (P : MemoKey → Value → Prop) (memo : Memo) : Prop :=
  ∀ (key : MemoKey) (v : Value), memo[key]? = some v → P key v

section

variable {P : MemoKey → Value → Prop} {memo : Memo}

theorem all_empty (P : MemoKey → Value → Prop) : All P ∅ := by
  intro key v h
  rw [Std.HashMap.getElem?_empty] at h
  cases h

/-- One more result that has it leaves all results with the property. -/
theorem All.insert (h : All P memo) {key : MemoKey} {v : Value} (hv : P key v) :
    All P (memo.insert key v) := by
  intro key' v' h'
  rw [Std.HashMap.getElem?_insert] at h'
  by_cases hk : key = key'
  · rw [if_pos (by simpa using hk)] at h'
    cases h'
    exact hk ▸ hv
  · rw [if_neg (by simpa using hk)] at h'
    exact h key' v' h'

/-- Forgetting everything leaves nothing that could lack the property. -/
theorem All.makeRoom (h : All P memo) : All P (Evaluator.makeRoom memo) := by
  unfold Evaluator.makeRoom
  split
  · exact all_empty P
  · exact h

end

end Memo

/-- **Every kept result is the one that the call gives.** -/
def Memo.Sound (r : Registry) (memo : Memo) : Prop :=
  ∀ (key : MemoKey) (v : Value), memo[key]? = some v → key.Gives r v

namespace Memo

variable {r : Registry} {memo : Memo}

theorem sound_empty (r : Registry) : Sound r ∅ := all_empty (MemoKey.Gives r)

theorem Sound.insert (h : Sound r memo) {key : MemoKey} {v : Value} (hv : key.Gives r v) :
    Sound r (memo.insert key v) := All.insert (P := MemoKey.Gives r) h hv

theorem Sound.makeRoom (h : Sound r memo) : Sound r (Evaluator.makeRoom memo) :=
  All.makeRoom (P := MemoKey.Gives r) h

end Memo

/-! ## 2. Worlds and sessions -/

/-- The worlds offer the services, and the same lines were written since they were `a` and `b`. -/
structure World.Alike (sv : Services) (a b : List String) (w w' : World) : Prop where
  left : w.services = sv
  right : w'.services = sv
  lines : ∃ new, w.lines = new ++ a ∧ w'.lines = new ++ b

namespace World.Alike

variable {sv : Services} {a b : List String} {w w' : World}

theorem symm (h : Alike sv a b w w') : Alike sv b a w' w := by
  obtain ⟨new, hw, hw'⟩ := h.lines
  exact ⟨h.right, h.left, new, hw', hw⟩

theorem self_right (h : Alike sv a b w w') : Alike sv b b w' w' := by
  obtain ⟨new, -, hw'⟩ := h.lines
  exact ⟨h.right, h.right, new, hw', hw'⟩

theorem trans {c : List String} {w'' : World} (h : Alike sv a b w w')
    (h' : Alike sv b c w' w'') : Alike sv a c w w'' := by
  obtain ⟨new, hw, hw'⟩ := h.lines
  obtain ⟨new', hw₂, hw''⟩ := h'.lines
  obtain rfl : new' = new := List.append_cancel_right (hw₂.symm.trans hw')
  exact ⟨h.left, h'.right, new', hw, hw''⟩

/-- What calls were carried out is of no account. -/
theorem note (h : Alike sv a b w w') (name name' : String) (args args' : List Value) :
    Alike sv a b (w.note name args) (w'.note name' args') := ⟨h.left, h.right, h.lines⟩

theorem note_right (h : Alike sv a b w w') (name : String) (args : List Value) :
    Alike sv a b w (w'.note name args) := ⟨h.left, h.right, h.lines⟩

/-- A line that is written in both worlds is one more of the same lines. -/
theorem writeLine (h : Alike sv a b w w') (line : String) :
    Alike sv a b (w.writeLine line) (w'.writeLine line) := by
  obtain ⟨new, hw, hw'⟩ := h.lines
  have hconsole : w'.hasConsole = w.hasConsole := by
    unfold hasConsole
    rw [h.left, h.right]
  unfold World.writeLine
  rw [hconsole]
  split
  · exact ⟨h.left, h.right, line :: new, congrArg (line :: ·) hw, congrArg (line :: ·) hw'⟩
  · exact h

/-- What was written since then is the same, in the order in which it was written. -/
theorem drop_output (h : Alike sv a b w w') :
    w.output.drop a.length = w'.output.drop b.length := by
  obtain ⟨new, hw, hw'⟩ := h.lines
  have hdrop : ∀ old : List String, (new ++ old).reverse.drop old.length = new.reverse := by
    intro old
    rw [List.reverse_append, ← List.length_reverse, List.drop_left]
  unfold World.output
  rw [hw, hw', hdrop, hdrop]

end World.Alike

/-- The worlds of the sessions are alike, and what the sessions keep is right. -/
structure Session.Alike (r : Registry) (sv : Services) (a b : List String) (s t : Session) :
    Prop where
  world : World.Alike sv a b s.world t.world
  left : Memo.Sound r s.memo
  right : Memo.Sound r t.memo

namespace Session.Alike

variable {r : Registry} {sv : Services} {a b : List String} {s t : Session}

theorem symm (h : Alike r sv a b s t) : Alike r sv b a t s := ⟨h.world.symm, h.right, h.left⟩

theorem self_right (h : Alike r sv a b s t) : Alike r sv b b t t :=
  ⟨h.world.self_right, h.right, h.right⟩

theorem trans {c : List String} {u : Session} (h : Alike r sv a b s t)
    (h' : Alike r sv b c t u) : Alike r sv a c s u :=
  ⟨h.world.trans h'.world, h.left, h'.right⟩

/-- A session that keeps what is right is like itself. -/
theorem self {r : Registry} {s : Session} (h : Memo.Sound r s.memo) :
    Alike r s.world.services s.world.lines s.world.lines s s :=
  ⟨⟨rfl, rfl, [], rfl, rfl⟩, h, h⟩

/-- A session that keeps what is right is like one in which nothing has happened. -/
theorem fresh {r : Registry} {s : Session} (h : Memo.Sound r s.memo) :
    Alike r s.world.services s.world.lines [] s (Session.fresh s.world.services) :=
  ⟨⟨rfl, rfl, [], rfl, rfl⟩, h, Memo.sound_empty r⟩

/-- Where nothing was written before, the same lines were written. -/
theorem output_eq (h : Alike r sv [] [] s t) : s.world.output = t.world.output :=
  h.world.drop_output

end Session.Alike

/-! ## 3. Runs -/

namespace Run

variable {α β : Type} {r : Registry}

/-- **From sessions that are alike, the runs come to the same outcome** and to sessions that are
    alike. -/
def Agrees (r : Registry) (m m' : Run α) : Prop :=
  ∀ sv a b s t, Session.Alike r sv a b s t →
    (result m s).1 = (result m' t).1 ∧ Session.Alike r sv a b (result m s).2 (result m' t).2

namespace Agrees

variable {m m' m'' : Run α}

theorem pure (a : α) : Agrees r (Pure.pure a : Run α) (Pure.pure a) := fun _ _ _ _ _ h => ⟨rfl, h⟩

theorem throw (e : RuntimeError) : Agrees r (throw e : Run α) (MonadExcept.throw e) :=
  fun _ _ _ _ _ h => ⟨rfl, h⟩

theorem symm (h : Agrees r m m') : Agrees r m' m := by
  intro sv a b s t hst
  obtain ⟨he, hs⟩ := h sv b a t s hst.symm
  exact ⟨he.symm, hs.symm⟩

theorem trans (h : Agrees r m m') (h' : Agrees r m' m'') : Agrees r m m'' := by
  intro sv a b s t hst
  obtain ⟨he, hs⟩ := h sv a b s t hst
  obtain ⟨he', hs'⟩ := h' sv b b t t hst.self_right
  exact ⟨he.trans he', hs.trans hs'⟩

/-- Runs that agree go on to agree. -/
theorem bind {f f' : α → Run β} (h : Agrees r m m') (hf : ∀ a, Agrees r (f a) (f' a)) :
    Agrees r (m >>= f) (m' >>= f') := by
  intro sv a b s t hst
  obtain ⟨he, hs⟩ := h sv a b s t hst
  rw [result_bind, result_bind]
  rcases hm : result m s with ⟨e | x, s'⟩
  · rcases hm' : result m' t with ⟨e' | x', t'⟩
    · rw [hm, hm'] at he hs
      cases he
      exact ⟨rfl, hs⟩
    · rw [hm, hm'] at he
      cases he
  · rcases hm' : result m' t with ⟨e' | x', t'⟩
    · rw [hm, hm'] at he
      cases he
    · rw [hm, hm'] at he hs
      cases he
      exact hf x sv a b s' t' hs

/-- What a run gives, a run that agrees gives in a session that is alike. -/
theorem result_ok_of_alike (h : Agrees r m m') {sv : Services} {a b : List String}
    {s t s' : Session} {v : α} (hst : Session.Alike r sv a b s t) (hv : result m s = (.ok v, s')) :
    ∃ t', result m' t = (.ok v, t') ∧ Session.Alike r sv a b s' t' := by
  obtain ⟨he, hs⟩ := h sv a b s t hst
  rw [hv] at he hs
  rcases hm' : result m' t with ⟨e' | v', t'⟩
  · rw [hm'] at he
    cases he
  · rw [hm'] at he hs
    cases he
    exact ⟨t', rfl, hs⟩

/-- What a run gives, a run that agrees gives in the same session. -/
theorem result_ok (h : Agrees r m m') {s s' : Session} {v : α} (hs : Memo.Sound r s.memo)
    (hv : result m s = (.ok v, s')) :
    ∃ t', result m' s = (.ok v, t') ∧ Memo.Sound r t'.memo := by
  obtain ⟨t', ht', hst⟩ := h.result_ok_of_alike (Session.Alike.self hs) hv
  exact ⟨t', ht', hst.right⟩

end Agrees

/-! ## 4. Keeping results -/

/-- **Looking up a kept result is as good as computing it.** Here the computation may be carried out
    from any session, a right result is what it gives, and what it gives is right. -/
theorem agrees_remember {key : MemoKey} {m : Run Value} (hm : Agrees r m m)
    (hhit : ∀ v, key.Gives r v → Agrees r (Pure.pure v) m)
    (hmiss : ∀ s s' v, result m s = (.ok v, s') → key.Gives r v) :
    Agrees r (Evaluator.remember key m) m := by
  intro sv a b s t hst
  rw [Evaluator.result_remember]
  cases hkey : s.memo[key]? with
  | some v => exact hhit v (hst.left key v hkey) sv a b s t hst
  | none =>
      have hroom : Session.Alike r sv a b { s with memo := Evaluator.makeRoom s.memo } t :=
        ⟨hst.world, hst.left.makeRoom, hst.right⟩
      obtain ⟨he, hs⟩ := hm sv a b _ t hroom
      dsimp only
      rcases hv : result m { s with memo := Evaluator.makeRoom s.memo } with ⟨e | v, s'⟩
      · rw [hv] at he hs
        exact ⟨he, hs⟩
      · rw [hv] at he hs
        exact ⟨he, hs.world, hs.left.insert (hmiss _ s' v hv), hs.right⟩

end Run

end CallScript
