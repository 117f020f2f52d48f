import SplQuery.Proofs.Fair.Made

/-!
# Laws of the steps of a parse

A law is a relation of states that every basic step of a parse keeps to, whatever is known where it
starts: a look ahead, a lexeme that is read, a node that is closed, a note. What is put together of
such steps keeps to it as well. Directly inside brackets a query that lies too deep is passed over
as a whole, pipes included, so that a law may ask for less there. And a law may say of a node that
is made in one way only what would not be true of a node of this shape with something else in it.

* `State.Law` — what makes a relation a law.
* `Heeds` — a step that keeps to a law where it is seen what is known.
* `Heeds.recover`, `Heeds.close`, … — each way of putting steps together gives such a step.
-/

namespace SplQuery

open State

namespace State

open SplQuery.Parser (opened cut sinceMark)

/-- A node of this shape may hold anything, as far as a law is concerned that knows nodes with a
recipe or does not. -/
structure Common (known : Bool) (shape : Shape) : Prop where
  ne_error : shape ≠ .error
  recipe : known = true → Grammar.recipe? shape = none

/-- A relation that every basic step keeps to. It may ask for less directly inside brackets, where
`loose` holds. With `known` it says of nodes with a recipe that they are made in this way. -/
structure Law (known : Bool) (R : Bool → State → State → Prop) : Prop where
  trans {loose : Bool} {s t u : State} : R loose s t → R loose t u → R loose s u
  /-- neither trees nor lexemes nor notes change -/
  idle {s t : State} (loose : Bool) : t.built = s.built → t.held = s.held → t.rest = s.rest →
    t.notes = s.notes → R loose s t
  skipTrivia (loose : Bool) (s : State) : R loose s s.skipTrivia
  drain (loose : Bool) (s : State) : R loose s s.drain
  bump (loose : Bool) (s : State) : R loose s s.bump
  node {inner : Bool} {s t : State} {shape : Shape} (loose : Bool) : Common known shape →
    (inner = true → shape = .subsearch) → R inner (opened s) t →
    R loose s (t.closeNode shape s.drain.built)
  wrap {mark : Nat} {s t : State} {shape : Shape} : Common known shape → R false (cut mark s) t →
    R false s (t.closeNode shape (s.built.drop (sinceMark mark s)))
  byRecipe {s : State} {shape : Shape} {recipe : Grammar.Recipe} {sight : Sight} (loose : Bool) :
    known = true → Grammar.recipe? shape = some recipe → recipe.starts sight = true →
      sight.Holds s → R false (opened s) (recipe.body (opened s)).2 →
      R loose s (Parser.node shape recipe.body s).2
  /-- something is noted at the next lexeme -/
  told {s : State} (loose : Bool) (kind : DiagnosticKind) (detail : Option String) : s.Ready →
    R loose s (s.withNotes (s.notes.toldAt kind s.span detail))
  opener {s : State} (loose : Bool) (kind : Kind) : s.Ready →
    R loose s (s.withNotes (s.notes.opened kind s.span))
  closed (loose : Bool) (s : State) : R loose s (s.withNotes s.notes.closed)
  unclosed {s : State} (loose : Bool) (kind : DiagnosticKind) : s.Ready →
    R loose s (s.withNotes (s.notes.unclosed kind s.span))
  entered (loose : Bool) (word : Option CommandWord) (s : State) :
    R loose s (s.withNotes (s.notes.entered word))
  left (loose : Bool) (s : State) : R loose s (s.withNotes s.notes.left)
  /-- one lexeme is passed over, which is no pipe -/
  refused {k : Kind} {s : State} (loose : Bool) : s.Ready → s.next? = some k → k ≠ .pipe →
    R loose s (Parser.single .error s).2
  /-- what is left of a stage is passed over, or inside brackets the whole of what is in them -/
  skipped (stopAtPipe : Bool) (s : State) :
    R (!stopAtPipe) s (Parser.node .error (Parser.skipBalanced stopAtPipe) s).2

namespace Law

variable {known : Bool} {R : Bool → State → State → Prop} {s : State}

theorem refl (law : Law known R) (loose : Bool) (s : State) : R loose s s :=
  law.idle loose rfl rfl rfl rfl

theorem look (law : Law known R) (loose : Bool) (s : State) : R loose s s.look :=
  law.idle loose (look_built s) (look_held s) (look_rest s) (notes_look s)

/-- A look past trivia. -/
theorem peek (law : Law known R) (loose : Bool) (s : State) : R loose s s.skipTrivia.look :=
  law.trans (law.skipTrivia loose s) (law.look loose _)

/-- The limit is noted once. -/
theorem tooDeep (law : Law known R) (loose : Bool) (hs : s.Ready) :
    R loose s (s.withNotes (s.notes.tooDeep s.span)) := by
  rw [Notes.tooDeep]
  split
  · exact law.refl loose s
  · exact law.told loose _ none hs

end Law

end State

/-! ## Steps -/

/-- From a state in which there is to be seen what is known, the step keeps to a relation. -/
def Heeds (R : Bool → State → State → Prop) (loose : Bool) (sight : Sight) {α : Type}
    (p : Parser α) : Prop :=
  ∀ s, sight.Holds s → R loose s (p s).2

namespace Heeds

open SplQuery.Parser

variable {known : Bool} {R : Bool → State → State → Prop} {loose : Bool} {sight : Sight} {k : Kind}
  {α β σ : Type} {p : Parser α}

theorem blind (h : Heeds R loose .nothing p) : Heeds R loose sight p := fun s _ => h s trivial

theorem narrow {l : Kind} (h : Heeds R loose (.here k) p) : Heeds R loose (.pair k l) p :=
  fun s hs => h s ⟨hs.1, hs.2.1⟩

theorem pure (law : Law known R) (a : α) : Heeds R loose sight (Pure.pure a) :=
  fun s _ => law.refl loose s

/-- A step after which something is seen. -/
theorem peek {f : α → Parser β} (law : Law known R) (hp : Heeds R loose sight p)
    (hf : ∀ s, sight.Holds s → ∃ after : Sight, after.Holds (p s).2 ∧
      Heeds R loose after (f (p s).1)) :
    Heeds R loose sight (p >>= f) := by
  intro s hs
  obtain ⟨after, hafter, h⟩ := hf s hs
  exact law.trans (hp s hs) (h _ hafter)

theorem bind {f : α → Parser β} (law : Law known R) (hp : Heeds R loose sight p)
    (hf : ∀ a, Heeds R loose .nothing (f a)) : Heeds R loose sight (p >>= f) :=
  peek law hp fun _ _ => ⟨.nothing, trivial, hf _⟩

theorem ite {c : Prop} [Decidable c] {p q : Parser α} (hp : c → Heeds R loose sight p)
    (hq : ¬ c → Heeds R loose sight q) : Heeds R loose sight (if c then p else q) := by
  split
  · next h => exact hp h
  · next h => exact hq h

/-! ## Looking ahead -/

section Questions

variable {f : Option Kind → Parser β}

theorem current (law : Law known R) : Heeds R loose sight Parser.current := by
  intro s _
  rw [current_eq]
  exact law.peek loose s

theorem skipTrivia (law : Law known R) (hp : ∀ s, (p s).2 = s.skipTrivia) :
    Heeds R loose sight p := by
  intro s _
  rw [hp]
  exact law.skipTrivia loose s

theorem ask (law : Law known R) (hf : f none = f (some .pipe))
    (hnone : Heeds R loose .nothing (f none))
    (hsome : ∀ k, k ≠ .pipe → Heeds R loose (.here k) (f (some k))) :
    Heeds R loose .nothing (Parser.current >>= f) :=
  peek law (current law) fun s _ =>
    current_sees (P := (Heeds R loose · ·)) hf hnone hsome s

theorem look (law : Law known R) (hsight : sight.past.first? = some k)
    (h : Heeds R loose sight.past (f (some k))) : Heeds R loose sight (Parser.current >>= f) :=
  peek law (current law) fun _ hs => current_shows (P := (Heeds R loose · ·)) hsight h hs

theorem askSecond (law : Law known R) (hf : f none = f (some .pipe))
    (hnone : Heeds R loose (.here k) (f none))
    (hsome : ∀ l, l ≠ .pipe → Heeds R loose (.pair k l) (f (some l))) :
    Heeds R loose (.here k) (ahead >>= f) :=
  peek law (skipTrivia law fun _ => rfl) fun _ hs =>
    ahead_sees (P := (Heeds R loose · ·)) hf hnone hsome hs

theorem touching (law : Law known R) {a : β} (hf : f (some .pipe) = Pure.pure a)
    (h : ∀ k, k ≠ .pipe → Heeds R loose (.here k) (f (some k))) :
    Heeds R loose .nothing
      (glued >>= fun b => if b = true then adjacent >>= f else Pure.pure a) := by
  intro s _
  obtain ⟨after, p, t, ht, hafter, hp, heq⟩ :=
    touching_sees (P := (Heeds R loose · ·)) hf (pure law a) h s
  rw [heq]
  refine law.trans ?_ (hp t hafter)
  rcases ht with rfl | rfl
  · exact law.refl loose t
  · exact law.look loose s

theorem require (law : Law known R) {member : Kind → Bool} {f : Unit → Parser β}
    (hsight : sight.first? = some k) (hmember : member k = true) (h : Heeds R loose sight (f ())) :
    Heeds R loose sight (Parser.require member >>= f) := by
  intro s hs
  change R loose s (f (Parser.require member s).1 (Parser.require member s).2).2
  rw [require_eq (hs.ready hsight).2 hmember]
  exact law.trans (law.peek loose s)
    (h _ ((hs.skipTrivia hsight).of_rest hsight (look_rest _)))

end Questions

/-! ## Reading and nodes -/

theorem bump (law : Law known R) : Heeds R loose sight Parser.bump := fun s _ => law.bump loose s

theorem bumpThen (law : Law known R) {f : Unit → Parser β} (hsight : sight.first? = some k)
    (h : Heeds R loose sight.afterBump (f ())) : Heeds R loose sight (Parser.bump >>= f) :=
  peek law (bump law) fun _ hs => ⟨sight.afterBump, hs.bump hsight, h⟩

theorem eatTrivia (law : Law known R) : Heeds R loose sight Parser.eatTrivia :=
  fun s _ => law.trans (law.skipTrivia loose s) (law.drain loose _)

theorem node (law : Law known R) {shape : Shape} (hshape : Common known shape)
    (h : Heeds R false sight.inside p) : Heeds R loose sight (Parser.node shape p) :=
  fun s hs => law.node loose hshape (fun hinner : false = true => nomatch hinner)
    (h (opened s) (hs.inside rfl))

theorem wrapFrom (law : Law known R) {p : Parser Unit} {shape : Shape} (mark : Nat)
    (hshape : Common known shape) (h : Heeds R false sight.inside p) :
    Heeds R false sight (Parser.wrapFrom mark shape p) :=
  fun s hs => law.wrap hshape (h (cut mark s) (hs.inside rfl))

theorem inCommand (law : Law known R) {p : Parser Unit} (word : Option CommandWord)
    (h : Heeds R loose sight p) : Heeds R loose sight (Parser.inCommand word p) := by
  intro s hs
  have hinner := h (Parser.entered word s) (hs.congr rfl rfl rfl)
  exact law.trans (law.trans (law.entered loose word s) hinner) (law.left loose _)

/-! ## Notes -/

theorem report (law : Law known R) (kind : DiagnosticKind) :
    Heeds R loose sight (Parser.report kind) := by
  intro s _
  rw [report_eq]
  exact law.trans (law.skipTrivia loose s) (law.told loose kind none (ready_skipTrivia s))

theorem reportWith (law : Law known R) (kind : DiagnosticKind) (detail : String) :
    Heeds R loose sight (Parser.reportWith kind detail) := by
  intro s _
  rw [reportWith_eq]
  exact law.trans (law.skipTrivia loose s) (law.told loose kind (some detail) (ready_skipTrivia s))

theorem pushOpener (law : Law known R) (kind : Kind) :
    Heeds R loose sight (Parser.pushOpener kind) := by
  intro s _
  rw [pushOpener_eq]
  exact law.trans (law.skipTrivia loose s) (law.opener loose kind (ready_skipTrivia s))

theorem close (law : Law known R) (closer : Kind) (kind : DiagnosticKind) :
    Heeds R loose sight (Parser.close closer kind) := by
  intro s _
  rw [close_eq]
  split
  · exact law.trans (law.closed loose s) (law.trans (law.peek loose _) (law.bump loose _))
  · have hsame : R loose (s.skipTrivia.withNotes (s.notes.unclosed kind s.skipTrivia.span))
        ((s.withNotes s.notes.closed).skipTrivia.look.withNotes
          (s.notes.unclosed kind s.skipTrivia.span)) :=
      law.idle loose (look_built _) (look_held _) (look_rest _) rfl
    exact law.trans (law.skipTrivia loose s)
      (law.trans (law.unclosed loose kind (ready_skipTrivia s)) hsame)

/-! ## Repetition -/

theorem loopFrom (law : Law known R) {body : σ → Parser (ForInStep σ)}
    (h : ∀ a, Heeds R loose .nothing (body a)) :
    ∀ fuel a, Heeds R loose .nothing (Parser.loopFrom body fuel a) := by
  intro fuel
  induction fuel with
  | zero => exact fun a s _ => law.idle loose rfl rfl rfl rfl
  | succ fuel ih =>
    refine fun a => bind law (h a) fun step => ?_
    cases step with
    | done b => exact pure law b
    | yield b => exact ih b

theorem loop (law : Law known R) {init : σ} {body : σ → Parser (ForInStep σ)}
    (hfirst : Heeds R loose sight (body init)) (hothers : ∀ a, Heeds R loose .nothing (body a)) :
    Heeds R loose sight (Parser.loop init body) := by
  have hround (fuel : Nat) : Heeds R loose sight (Parser.loopFrom body (fuel + 1) init) := by
    refine bind law hfirst fun step => ?_
    cases step with
    | done b => exact pure law b
    | yield b => exact loopFrom law hothers fuel b
  exact fun s => hround (s.rest.length + 1) s

theorem whileTrue (law : Law known R) {body : Parser Bool} (h : Heeds R loose .nothing body) :
    Heeds R loose .nothing (Parser.whileTrue body) :=
  loop law (bind law h fun _ => pure law _) fun _ => bind law h fun _ => pure law _

/-! ## Passing over -/

/-- A lexeme that is known to be ahead, and to be no pipe, is passed over. -/
theorem refused (law : Law known R) (hk : k ≠ .pipe) {s : State} (hnext : s.next? = some k)
    (n : Notes) :
    R loose (s.skipTrivia.withNotes n) (bumpAsError (s.skipTrivia.withNotes n)).2 := by
  have hhere : (Sight.here k).Holds (s.skipTrivia.withNotes n) :=
    (Sight.Holds.here_of_next? hnext).of_rest rfl rfl
  rw [bumpAsError_eq (rest_ne_nil_of_next? hhere.2)]
  exact law.refused loose hhere.1 hhere.2 hk

theorem refuse (law : Law known R) (hsight : sight.first? = some k) (hk : k ≠ .pipe)
    (kind : DiagnosticKind) : Heeds R loose sight (Parser.refuse kind) := by
  intro s hs
  have hreport : R loose s (Parser.report kind s).2 := report law kind s hs
  change R loose s (bumpAsError (Parser.report kind s).2).2
  refine law.trans hreport ?_
  rw [report_eq]
  exact refused law hk (hs.ready hsight).2 _

theorem refuseWith (law : Law known R) (hsight : sight.first? = some k) (hk : k ≠ .pipe)
    (kind : DiagnosticKind) (detail : String) :
    Heeds R loose sight (Parser.refuseWith kind detail) := by
  intro s hs
  have hreport : R loose s (Parser.reportWith kind detail s).2 := reportWith law kind detail s hs
  change R loose s (bumpAsError (Parser.reportWith kind detail s).2).2
  refine law.trans hreport ?_
  rw [reportWith_eq]
  exact refused law hk (hs.ready hsight).2 _

/-- What is noted about the rest of a stage is noted before that is passed over. -/
theorem recover_eq_skipped {s : State} (hs : s.Ready) (kind : DiagnosticKind) (detail : String) :
    Parser.node .error (Parser.reportWith kind detail >>= fun _ => skipBalanced true) s =
      Parser.node .error (skipBalanced true)
        (s.withNotes (s.notes.toldAt kind s.span (some detail))) := by
  have hreport : Parser.reportWith kind detail (opened s) =
      ((), opened (s.withNotes (s.notes.toldAt kind s.span (some detail)))) := by
    rw [reportWith_eq, (ready_opened hs).skipTrivia]
    rfl
  change ((), (skipBalanced true (Parser.reportWith kind detail (opened s)).2).2.closeNode .error
    s.drain.built) = _
  rw [hreport]
  rfl

theorem recover (law : Law known R) (kind : DiagnosticKind) (detail : String) :
    Heeds R false sight (Parser.recover kind detail) := by
  intro s hs
  have hready : s.skipTrivia.look.Ready := (ready_skipTrivia s).of_rest (look_rest _)
  rw [recover_eq]
  refine law.trans (law.peek false s) ?_
  split
  · have hreport : Heeds R false .nothing (Parser.reportWith kind detail) :=
      reportWith law kind detail
    exact hreport _ trivial
  · -- as far as a law is concerned the report is made before the node of the error is opened
    rw [recover_eq_skipped hready]
    exact law.trans (law.told false kind (some detail) hready) (law.skipped true _)

/-- At the limit what would be nested is passed over. -/
theorem descend_none (law : Law known R) (stopAtPipe : Bool) (body : Inner → Parser Unit) :
    Heeds R (!stopAtPipe) sight (Parser.descend none stopAtPipe body) := by
  intro s _
  rw [Parser.descend_none]
  exact law.trans (law.skipTrivia _ s)
    (law.trans (law.tooDeep _ (ready_skipTrivia s)) (law.skipped stopAtPipe _))

/-- One level further down. -/
theorem descend (law : Law known R) {inner : Inner} {body : Inner → Parser Unit} (stopAtPipe : Bool)
    (h : Heeds R loose .nothing (body inner)) :
    Heeds R loose .nothing (Parser.descend (some inner) stopAtPipe body) := by
  intro s _
  have hrefresh (t : State) : R loose t t.refresh := law.idle loose rfl rfl rfl rfl
  exact law.trans (law.trans (hrefresh s) (h s.refresh trivial)) (hrefresh _)

end Heeds

end SplQuery
