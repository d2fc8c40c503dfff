import CallScript.Node.Parser

/-!
# Moving places

A map of places moves a token, a node or an error: every place in it becomes its image, and everything
else stays. Nothing that is done with a script looks at places, so it makes no difference whether
they are moved before or after; here this is shown of the reader.

* `Token.move`, `Node.move` and `ParseError.move`: what moves, and what does not notice;
* `Node.step_move` is one step of the reader, and `Node.parse_move` the reader: the program or the
  failure is moved along with the tokens. They have to contain an end mark, since a reader that runs
  out of tokens makes a place up.

Moving all places to one forgets them.
-/

namespace CallScript

/-! ## 1. Outcomes -/

section

variable {ε ε' α α' β β' : Type} {fe : ε → ε'} {fa : α → α'} {fb : β → β'}

/-- The outcome with its error and its value mapped. -/
def mapBoth (fe : ε → ε') (fa : α → α') : Except ε α → Except ε' α'
  | .ok a => .ok (fa a)
  | .error e => .error (fe e)

@[simp] theorem mapBoth_ok (a : α) : mapBoth fe fa (.ok a) = .ok (fa a) := rfl

/-- Two computations one after the other are mapped one after the other. -/
theorem mapBoth_bind {x : Except ε α} {x' : Except ε' α'} {k : α → Except ε β}
    {k' : α' → Except ε' β'} (hx : x' = mapBoth fe fa x)
    (hk : ∀ a, k' (fa a) = mapBoth fe fb (k a)) : (x' >>= k') = mapBoth fe fb (x >>= k) := by
  subst hx
  cases x with
  | error e => rfl
  | ok a => exact hk a

theorem mapBoth_eq_ok {x : Except ε α} {b : α'} (h : mapBoth fe fa x = .ok b) :
    ∃ a, x = .ok a ∧ fa a = b := by
  cases x with
  | error e => cases h
  | ok a => exact ⟨a, rfl, Except.ok.inj h⟩

end

/-! ## 2. What moves -/

/-- The token at the image of its place. -/
def Token.move (σ : Place → Place) (t : Token) : Token := ⟨t.kind, σ t.place⟩

namespace ParseError

/-- The failure at the image of its place. -/
def move (σ : Place → Place) : ParseError → ParseError
  | unexpectedToken p token => .unexpectedToken (σ p) token
  | unexpectedEnd p => .unexpectedEnd (σ p)
  | integerOutOfRange p written => .integerOutOfRange (σ p) written
  | nestingTooDeep p limit => .nestingTooDeep (σ p) limit

end ParseError

namespace Node

mutual

/-- The node with its place and the places below it moved. -/
def move (σ : Place → Place) : Node → Node
  | .literal v p => .literal v (σ p)
  | .call name p args memo => .call name (σ p) (moveAll σ args) memo

def moveAll (σ : Place → Place) : List Node → List Node
  | [] => []
  | n :: ns => n.move σ :: moveAll σ ns

end

variable (σ : Place → Place)

theorem moveAll_eq_map (ns : List Node) : moveAll σ ns = ns.map (move σ) := by
  induction ns with
  | nil => rfl
  | cons n ns ih => exact congrArg (n.move σ :: ·) ih

theorem move_call (name : String) (p : Place) (args : List Node) (memo : Option MemoKey) :
    (Node.call name p args memo).move σ = .call name (σ p) (args.map (move σ)) memo :=
  congrArg (Node.call name (σ p) · memo) (moveAll_eq_map σ args)

@[simp] theorem place_move (n : Node) : (n.move σ).place = σ n.place := by
  cases n <;> rfl

@[simp] theorem literal?_move (n : Node) : (n.move σ).literal? = n.literal? := by
  cases n <;> rfl

@[simp] theorem text?_move (n : Node) : (n.move σ).text? = n.text? := by
  cases n with
  | literal v p => cases v <;> rfl
  | call => rfl

@[simp] theorem literals?_move (ns : List Node) : literals? (ns.map (move σ)) = literals? ns := by
  induction ns with
  | nil => rfl
  | cons n ns ih => rw [List.map_cons, literals?, literals?, literal?_move, ih]

mutual

@[simp] theorem size_move : ∀ n : Node, (n.move σ).size = n.size
  | .literal _ _ => rfl
  | .call _ _ args _ => congrArg (· + 1) (sizeAll_move args)

theorem sizeAll_move : ∀ ns : List Node, sizeAll (moveAll σ ns) = sizeAll ns
  | [] => rfl
  | n :: ns => by rw [moveAll, sizeAll, sizeAll, size_move n, sizeAll_move ns]

end

/-! ## 3. The reader -/

/-- What is open, with its places moved. -/
def Frame.move : Frame → Frame
  | .group => .group
  | .arguments name p done => .arguments name (σ p) (done.map (Node.move σ))
  | .index subject p => .index (subject.move σ) (σ p)

/-- What may come next, with its places moved. -/
def Goal.move : Goal → Goal
  | .statement => .statement
  | .expression => .expression
  | .opening name p => .opening name (σ p)
  | .firstArgument name p => .firstArgument name (σ p)
  | .rest node => .rest (node.move σ)

/-- What is done with a token, with its places moved. -/
def Step.move : Step → Step
  | .go frames goal => .go (frames.map (Frame.move σ)) (goal.move σ)
  | .finish node => .finish (node.move σ)
  | .stop => .stop
  | .fail e => .fail (e.move σ)

variable {σ} {limit : Nat} {frames : List Frame} {t : Token}

theorem refuse_move : refuse (t.move σ) = (refuse t).move σ := by
  obtain ⟨kind, p⟩ := t
  cases kind <;> rfl

theorem startExpression_move :
    startExpression limit (frames.map (Frame.move σ)) (t.move σ) =
      (startExpression limit frames t).move σ := by
  obtain ⟨kind, p⟩ := t
  unfold startExpression
  rw [List.length_map]
  split
  · rfl
  · cases kind with
    | integer written =>
        dsimp only [Token.move]
        cases Decimal.parse? written <;> rfl
    | _ => rfl

theorem afterNode_move {node : Node} :
    afterNode (node.move σ) (frames.map (Frame.move σ)) (t.move σ) =
      (afterNode node frames t).move σ := by
  obtain ⟨kind, p⟩ := t
  cases frames with
  | nil => cases kind <;> rfl
  | cons frame frames =>
      cases frame with
      | group => cases kind <;> rfl
      | index subject q => cases kind <;> rfl
      | arguments name q done =>
          cases kind with
          | rightParen =>
              have hargs : (node.move σ :: done.map (Node.move σ)).reverse =
                  (node :: done).reverse.map (Node.move σ) := by
                rw [← List.map_cons, List.map_reverse]
              show Step.go _ (.rest (.call name (σ q) (node.move σ :: done.map _).reverse none)) =
                Step.go _ (.rest ((Node.call name q (node :: done).reverse none).move σ))
              rw [hargs, move_call]
          | _ => rfl

/-- **One step of the reader** moves along with the token and with what is open. -/
theorem step_move {goal : Goal} :
    step limit (frames.map (Frame.move σ)) (t.move σ) (goal.move σ) =
      (step limit frames t goal).move σ := by
  cases goal with
  | statement =>
      have hstart := @startExpression_move σ limit [] t
      obtain ⟨kind, p⟩ := t
      cases kind with
      | semicolon | eof => rfl
      | _ => exact hstart
  | expression => exact startExpression_move
  | opening name p =>
      show (if t.kind = .leftParen then _ else _) = Step.move σ (if t.kind = .leftParen then _ else _)
      split
      · rfl
      · exact congrArg Step.fail refuse_move
  | firstArgument name p =>
      show (if t.kind = .rightParen then _ else _) =
        Step.move σ (if t.kind = .rightParen then _ else _)
      split
      · rfl
      · exact @startExpression_move σ limit (.arguments name p [] :: frames) t
  | rest node => exact afterNode_move

/-- The end mark ends the reading, or it is refused. -/
theorem step_eof {goal : Goal} (h : t.kind = .eof) {frames' : List Frame} {goal' : Goal} :
    step limit frames t goal ≠ .go frames' goal' := by
  obtain ⟨kind, p⟩ := t
  obtain rfl : kind = .eof := h
  have hstart : ∀ frames : List Frame,
      startExpression limit frames ⟨.eof, p⟩ ≠ .go frames' goal' := by
    intro frames h
    unfold startExpression at h
    split at h
    · cases h
    · cases h
  cases goal with
  | statement => exact nofun
  | opening => exact nofun
  | expression => exact hstart frames
  | firstArgument name q => exact hstart _
  | rest node =>
      cases frames with
      | nil => exact nofun
      | cons frame frames => cases frame <;> exact nofun

/-- The reader moves along with its tokens, from any point on. The induction is on the tokens; an end
    mark is among those that are left, so they do not run out. -/
theorem parseFrom_move : ∀ {ts : List Token} (frames : List Frame) (goal : Goal),
    (∃ t ∈ ts, t.kind = .eof) →
    parseFrom limit (frames.map (Frame.move σ)) (goal.move σ) (ts.map (Token.move σ)) =
      mapBoth (ParseError.move σ) (List.map (Node.move σ)) (parseFrom limit frames goal ts)
  | [], _, _, ⟨_, ht, _⟩ => (List.not_mem_nil ht).elim
  | t :: ts, frames, goal, hmark => by
      have hrest : t.kind ≠ .eof → ∃ t ∈ ts, t.kind = .eof := by
        intro ht
        obtain ⟨u, hu, heof⟩ := hmark
        rcases List.mem_cons.1 hu with rfl | hu
        · exact absurd heof ht
        · exact ⟨u, hu, heof⟩
      rw [List.map_cons, parseFrom, parseFrom, step_move]
      cases hstep : step limit frames t goal with
      | go frames' goal' =>
          exact parseFrom_move frames' goal' (hrest fun ht => step_eof ht hstep)
      | finish node =>
          show (if t.kind = .eof then _ else _) = mapBoth _ _ (if t.kind = .eof then _ else _)
          split
          · rfl
          · next ht =>
            have hmoved := parseFrom_move [] .statement (hrest ht)
            show (parseFrom limit ([].map (Frame.move σ)) (Goal.move σ .statement) _).map _ = _
            rw [hmoved]
            cases parseFrom limit [] .statement ts <;> rfl
      | stop => rfl
      | fail e => rfl

/-- **The program that tokens form, or the failure to form one, moves along with them.** -/
theorem parse_move {ts : List Token} (h : ∃ t ∈ ts, t.kind = .eof) :
    parse limit (ts.map (Token.move σ)) =
      mapBoth (ParseError.move σ) (List.map (Node.move σ)) (parse limit ts) :=
  parseFrom_move [] .statement h

end Node

end CallScript
