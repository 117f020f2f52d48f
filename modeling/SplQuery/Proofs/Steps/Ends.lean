import SplQuery.Grammar.State

/-!
# Where a step of a parse ends

`Ends p s Q` says of a step `p` that from the state `s` it comes to an answer and a state of which
`Q` holds. One rule for each way of putting steps together reduces such a statement about a
production to statements about its parts:

* `Ends.bind` — one step after another; what holds after the first is what the second starts from.
* `Ends.orElse`, `Ends.andAlso`, `Ends.negated` — questions joined without asking more than needed.
* `node_ends`, `wrapFrom_ends`, `inCommand_ends` — what is undone after the step inside.
* `loopFrom_ends` — repetition: an invariant, and a measure that each round makes smaller.
-/

namespace SplQuery.Parser

variable {α β σ : Type}

/-- From `s` the step comes to an answer and a state of which `Q` holds. -/
def Ends (p : Parser α) (s : State) (Q : α → State → Prop) : Prop := Q (p s).1 (p s).2

namespace Ends

variable {s : State} {p : Parser α} {f : α → Parser β} {P P' : α → State → Prop}
  {Q : β → State → Prop}

theorem mono (h : Ends p s P) (hP : ∀ a t, P a t → P' a t) : Ends p s P' := hP _ _ h

theorem pure {a : α} (h : P a s) : Ends (pure a) s P := h

theorem modify {Q : PUnit → State → Prop} {g : State → State} (h : Q ⟨⟩ (g s)) :
    Ends (modify g) s Q := h

theorem get {Q : State → State → Prop} (h : Q s s) : Ends get s Q := h

/-- The second step starts where the first one ends. -/
theorem bind (hp : Ends p s P) (hf : ∀ a t, P a t → Ends (f a) t Q) : Ends (p >>= f) s Q :=
  hf _ _ hp

end Ends

/-! ## Questions -/

section Questions

variable {s : State} {p q : Parser Bool} {P Q : Bool → State → Prop}

/-- The second question is asked only when the first is answered by no. -/
theorem Ends.orElse (hp : Ends p s P) (hyes : ∀ t, P true t → Q true t)
    (hno : ∀ t, P false t → Ends q t Q) : Ends (p <||> q) s Q := by
  refine Ends.bind hp fun a t ha => ?_
  cases a with
  | true => exact hyes t ha
  | false => exact hno t ha

/-- The second question is asked only when the first is answered by yes. -/
theorem Ends.andAlso (hp : Ends p s P) (hyes : ∀ t, P true t → Ends q t Q)
    (hno : ∀ t, P false t → Q false t) : Ends (p <&&> q) s Q := by
  refine Ends.bind hp fun a t ha => ?_
  cases a with
  | true => exact hyes t ha
  | false => exact hno t ha

theorem Ends.negated (hp : Ends p s fun a t => Q (!a) t) : Ends (notM p) s Q := hp

end Questions

/-! ## Nodes and commands -/

section Around

variable {s : State} {body : Parser α} {Q : α → State → Prop}

/-- The state in which the inside of a node starts. -/
def opened (s : State) : State := s.drain.openNode

theorem node_ends {shape : Shape}
    (h : Ends body (opened s) fun a t => Q a (t.closeNode shape s.drain.built)) :
    Ends (node shape body) s Q := h

/-- How many of the trees last put into the innermost node came after a mark. -/
def sinceMark (mark : Nat) (s : State) : Nat := s.built.length - mark

/-- The state in which a node around what came after a mark goes on. -/
def cut (mark : Nat) (s : State) : State := { s with built := s.built.take (sinceMark mark s) }

theorem wrapFrom_ends {mark : Nat} {shape : Shape} {body : Parser Unit} {Q : Unit → State → Prop}
    (h : Ends body (cut mark s) fun _ t =>
      Q () (t.closeNode shape (s.built.drop (sinceMark mark s)))) :
    Ends (wrapFrom mark shape body) s Q := h

/-- The state in which a step starts as part of a command. -/
def entered (word : Option CommandWord) (s : State) : State :=
  { s with commands := word :: s.commands }

/-- The state after a step that was part of a command. -/
def left (s : State) : State := { s with commands := s.commands.tail }

theorem inCommand_ends {word : Option CommandWord} {body : Parser Unit} {Q : Unit → State → Prop}
    (h : Ends body (entered word s) fun _ t => Q () (left t)) : Ends (inCommand word body) s Q := h

end Around

/-! ## Repetition -/

section Repetition

variable {s : State} {body : σ → Parser (ForInStep σ)} {I : σ → State → Prop}
  {Q : σ → State → Prop}

/-- A round that ends the repetition has reached `Q`; one that goes on keeps `I`, and leaves fewer
lexemes or a smaller rank. -/
def RoundEnds (I Q : σ → State → Prop) (rank : σ → Nat) (a : σ) (s : State)
    (r : ForInStep σ) (t : State) : Prop :=
  match r with
  | .done b => Q b t
  | .yield b => I b t ∧ t.rest.length + rank b < s.rest.length + rank a

/-- Repetition ends where its last round does, if there are more rounds left than the measure. -/
theorem loopFrom_ends (rank : σ → Nat)
    (hbody : ∀ a s, I a s → Ends (body a) s (RoundEnds I Q rank a s)) :
    ∀ (fuel : Nat) (a : σ) (s : State), I a s → s.rest.length + rank a < fuel →
      Ends (loopFrom body fuel a) s Q := by
  intro fuel
  induction fuel with
  | zero =>
    intro a s _ hfuel
    exact absurd hfuel (Nat.not_lt_zero _)
  | succ fuel ih =>
    intro a s hI hfuel
    refine Ends.bind (hbody a s hI) fun r t hr => ?_
    cases r with
    | done b => exact hr
    | yield b =>
      obtain ⟨hb, hlt⟩ := hr
      exact ih b t hb (by omega)

/-- A repetition may start with any rank up to one. -/
theorem loop_ends (rank : σ → Nat) {init : σ} (hrank : rank init ≤ 1) (hI : I init s)
    (hbody : ∀ a s, I a s → Ends (body a) s (RoundEnds I Q rank a s)) :
    Ends (loop init body) s Q :=
  loopFrom_ends rank hbody _ init s hI (by omega)

end Repetition

end SplQuery.Parser
