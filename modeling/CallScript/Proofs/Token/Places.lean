import CallScript.Token.Lexer

/-!
# Places of tokens

The characters of a text stand at places one after another (`Place.Before`), and every token stands at
the place of a character of its own.

* `places_sublist`: the places of the tokens are places of the text, in its order, the end last;
* `nodup_places_scan`: no two tokens of a script stand at the same place.
-/

namespace CallScript

/-! ## 1. One place before another -/

namespace Place

/-- The place is on an earlier line, or on the same line further to the left. -/
def Before (p q : Place) : Prop := p.line < q.line ∨ p.line = q.line ∧ p.column < q.column

variable {p q s : Place}

theorem Before.trans (h : Before p q) (h' : Before q s) : Before p s := by
  unfold Before at *
  omega

theorem Before.ne (h : Before p q) : p ≠ q := by
  rintro rfl
  unfold Before at h
  omega

theorem before_next (p : Place) (c : Char) : Before p (p.next c) := by
  unfold next
  split
  · exact Or.inl (Nat.lt_succ_self _)
  · exact Or.inr ⟨rfl, Nat.lt_succ_self _⟩

end Place

namespace Token

open Place

variable {p stop : Place} {s rest : List Located} {ts : List Token}

/-- The places of a text with the one behind it. -/
def placesOf (p : Place) (cs : List Char) : List Place :=
  (located p cs).map Located.place ++ [p.after cs]

/-- A text starts at its first place. -/
theorem eq_or_before_of_mem_placesOf (cs : List Char) (p : Place) :
    ∀ q ∈ placesOf p cs, q = p ∨ Before p q := by
  induction cs generalizing p with
  | nil =>
      intro q hq
      exact Or.inl (List.mem_singleton.1 hq)
  | cons c cs ih =>
      intro q hq
      rcases List.mem_cons.1 hq with rfl | hq
      · exact Or.inl rfl
      · rcases ih (p.next c) q hq with rfl | hlater
        · exact Or.inr (before_next p c)
        · exact Or.inr ((before_next p c).trans hlater)

/-- **The places of a text come one after another.** -/
theorem pairwise_placesOf (cs : List Char) (p : Place) : (placesOf p cs).Pairwise Before := by
  induction cs generalizing p with
  | nil => exact List.pairwise_singleton _ _
  | cons c cs ih =>
      refine List.pairwise_cons.2 ⟨fun q hq => ?_, ih (p.next c)⟩
      rcases eq_or_before_of_mem_placesOf cs (p.next c) q hq with rfl | hlater
      · exact before_next p c
      · exact (before_next p c).trans hlater

/-! ## 2. What reading leaves is the end of the text -/

theorem skipTrivia_suffix (comment : Bool) (s : List Located) : skipTrivia comment s <:+ s := by
  induction s generalizing comment with
  | nil => exact List.suffix_refl []
  | cons x r ih =>
      rw [skipTrivia]
      split
      · exact (ih _).trans (List.suffix_cons x r)
      · split
        · exact (ih _).trans (List.suffix_cons x r)
        · split
          · exact (ih _).trans (List.suffix_cons x r)
          · exact List.suffix_refl _

theorem suffix_of_stringBody? {quote : Char} {text : List Char}
    (h : stringBody? quote s = some (text, rest)) : rest <:+ s := by
  fun_induction stringBody? quote s generalizing text with
  | case1 => cases h
  | case2 x r _ =>
      cases h
      exact List.suffix_cons x rest
  | case3 => cases h
  | case4 x _ _ y r ih =>
      obtain ⟨⟨t, u⟩, h', e⟩ := Option.map_eq_some_iff.1 h
      cases e
      exact (ih h').trans ((List.suffix_cons y r).trans (List.suffix_cons x _))
  | case5 x r _ _ ih =>
      obtain ⟨⟨t, u⟩, h', e⟩ := Option.map_eq_some_iff.1 h
      cases e
      exact (ih h').trans (List.suffix_cons x r)

theorem suffix_of_kind? {c : Char} {kind : Kind} (h : kind? c s = some (kind, rest)) :
    rest <:+ s := by
  unfold kind? at h
  split at h
  · cases h
    exact List.suffix_refl _
  · split at h
    · obtain ⟨⟨t, u⟩, h', e⟩ := Option.map_eq_some_iff.1 h
      cases e
      exact suffix_of_stringBody? h'
    · split at h
      · cases h
        exact List.dropWhile_suffix _
      · dsimp only at h
        split at h
        · cases h
          exact List.dropWhile_suffix _
        · cases h

/-! ## 3. Tokens -/

/-- The tokens of a text are the first one and those of what is left of the text. -/
theorem cons_eq_ok {x : Except LexError (List Token)} {t : Token} {ts : List Token}
    (h : (do let us ← x; pure (t :: us)) = Except.ok ts) : ∃ us, x = .ok us ∧ ts = t :: us := by
  cases x with
  | error e => cases h
  | ok us =>
      cases h
      exact ⟨us, rfl, rfl⟩

/-- **Tokens stand at places of the text**, in its order, and the end mark behind it. -/
theorem places_sublist {s : List Located} {ts : List Token} (h : scanFrom stop s = .ok ts) :
    (ts.map Token.place).Sublist (s.map Located.place ++ [stop]) := by
  fun_induction scanFrom stop s generalizing ts with
  | case1 s hs =>
      cases h
      exact List.sublist_append_right _ _
  | case2 => cases h
  | case3 s x r hskip t rest hlex ih =>
      obtain ⟨us, hrest, rfl⟩ := cons_eq_ok h
      obtain ⟨⟨kind, rest'⟩, hkind, he⟩ := Option.map_eq_some_iff.1 hlex
      obtain ⟨rfl, rfl⟩ := Prod.mk.inj he
      -- the token takes the place of its first character, and leaves what is behind it
      have htoken : (x :: rest').Sublist (x :: r) :=
        (suffix_of_kind? hkind).sublist.cons_cons x
      have htext : (x :: r).Sublist s := hskip ▸ (skipTrivia_suffix false s).sublist
      have hplaces := ((htoken.trans htext).map Located.place).append_right [stop]
      exact ((ih hrest).cons_cons x.place).trans hplaces

/-- No two tokens of a script stand at the same place. -/
theorem nodup_places_scan {source : String} {file : Option String} {ts : List Token}
    (h : scan source file = .ok ts) : (ts.map Token.place).Nodup := by
  have hpairwise := (pairwise_placesOf source.toList ⟨file, 1, 1⟩).sublist (places_sublist h)
  exact hpairwise.imp Before.ne

end Token

end CallScript
