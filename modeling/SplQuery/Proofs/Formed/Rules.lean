import SplQuery.Proofs.Formed.Carries

/-!
# Rules for what steps put under a node

One rule for each way of putting steps together. Most steps put in nodes of one class only, and for
these the rules ask for nothing else (`Puts.bind`, `Puts.loop`); where a node must hold parts in a
certain order its steps are followed one by one (`Carries.bind`, `Forms.frame`).
-/

namespace SplQuery

open State

/-! ## Reading on -/

namespace Steady

open SplQuery.Parser

variable {sight : Sight} {α β σ : Type} {p : Parser α}

theorem of {P : List Lexeme → α → List Lexeme → Prop} (h : Takes P sight p) : Steady sight p :=
  h.mono fun _ _ _ _ => trivial

theorem bind {f : α → Parser β} (hp : Steady sight p) (hf : ∀ a, Steady .nothing (f a)) :
    Steady sight (p >>= f) :=
  Takes.bind hp fun _ a => (hf a).mono fun _ _ _ _ _ => trivial

theorem glance (h : ∀ s, sight.Holds s → Glances s (p s).2) : Steady sight p := by
  refine ⟨fun s hs => (h s hs).retains, fun s hs _ _ => ?_⟩
  obtain ⟨read, -, htook⟩ := (h s hs).took
  exact ⟨read, trivial, htook⟩

theorem bump : Steady .nothing Parser.bump := by
  refine ⟨.of_notes notes_bump, fun s _ _ _ => ?_⟩
  cases hrest : s.rest with
  | nil =>
    refine ⟨[], trivial, .of_notes ?_ (notes_bump s)⟩
    change s.rest = s.bump.rest
    rw [State.bump, hrest]
    exact hrest.symm
  | cons l ls => exact ⟨[l], trivial, took_bump hrest⟩

theorem loopFrom {body : σ → Parser (ForInStep σ)} (h : ∀ a, Steady .nothing (body a)) :
    ∀ fuel a, Steady .nothing (Parser.loopFrom body fuel a) := by
  intro fuel
  induction fuel with
  | zero => exact fun a => glance fun s _ => .of_took rfl ⟨rfl, rfl, rfl, rfl⟩
  | succ fuel ih =>
    refine fun a => (h a).bind fun step => ?_
    cases step with
    | done b => exact Takes.pure fun _ => trivial
    | yield b => exact ih b

theorem loop {init : σ} {body : σ → Parser (ForInStep σ)} (h : ∀ a, Steady .nothing (body a)) :
    Steady .nothing (Parser.loop init body) :=
  ⟨fun s => (loopFrom h (s.rest.length + 2) init).retains s,
    fun s => (loopFrom h (s.rest.length + 2) init).silent s⟩

/-- Where nothing is noted of a delimiter that is open, nothing was noted before its closer, which
was read. -/
theorem close_after {closer : Kind} {kind : DiagnosticKind} {body : Parser α}
    (h : Steady .nothing body) {s : State} (hs : s.Audible) (hopen : s.openers ≠ [])
    (heq : (close closer kind (body s).2).2.reports = s.reports) :
    (body s).2.reports = s.reports ∧ (∃ read, s.Took read (body s).2) ∧
      (body s).2.next? = some closer ∧
      ∃ read, s.Took read (close closer kind (body s).2).2 := by
  -- what is noted stays noted, so the body cannot have noted anything either
  have hsame : (body s).2.reports = s.reports :=
    ((h.retains s trivial).reports.eq_of_length_le
      (heq ▸ (Takes.close_retains closer kind _).1.length_le)).symm
  obtain ⟨read, -, htook⟩ := h.silent s trivial hs hsame
  obtain ⟨hnext, front, l, -, -, -, htook'⟩ := Takes.close_silent (hs.took htook)
    ((h.retains s trivial).openers ▸ hopen) (heq.trans hsame.symm)
  exact ⟨hsame, ⟨read, htook⟩, hnext, _, htook.trans htook'⟩

/-- A group reads on if what opens it and what is in it do. -/
theorem group {opener closer : Kind} {kind : DiagnosticKind} {opening : Parser α}
    {body : Parser β} (hopening : Steady .nothing opening) (hbody : Steady .nothing body) :
    Steady sight (pushOpener opener >>= fun _ => opening >>= fun _ => body >>= fun _ =>
      close closer kind) := by
  have hinside : Steady .nothing (opening >>= fun _ => body) := hopening.bind fun _ => hbody
  refine Takes.blind ⟨fun s _ => ?_, fun s _ hs heq => ?_⟩
  · obtain ⟨hreports, hopeners⟩ := hinside.retains (pushOpener opener s).2 trivial
    obtain ⟨hclosed, htail⟩ := Takes.close_retains closer kind (body (opening _).2).2
    exact ⟨hreports.trans hclosed, htail.trans (congrArg List.tail hopeners)⟩
  · have hpushed : Took (s.rest.takeWhile Lexeme.isTrivia) s (pushOpener opener s).2 :=
      ⟨(took_skipTrivia s).rest, rfl, rfl, rfl⟩
    obtain ⟨-, -, -, read, htook⟩ :=
      hinside.close_after (hs.took hpushed) (List.cons_ne_nil _ _) heq
    exact ⟨_, trivial, hpushed.trans htook⟩

end Steady

/-! ## Triples -/

section Triples

open SplQuery.Parser

variable {m : Nat} {I J : Content → Prop} {sight : Sight} {k : Kind} {α β σ : Type}
  {L L' : α → Content → Prop} {N : β → Content → Prop} {p : Parser α}

namespace Carries

theorem mono (h : Carries m I L sight p) (hL : ∀ a c, L a c → L' a c) : Carries m I L' sight p :=
  ⟨h.steady, fun s base hsight hs hm hI heq => (h.carries s base hsight hs hm hI heq).mono (hL _)⟩

theorem blind (h : Carries m I L .nothing p) : Carries m I L sight p :=
  ⟨h.steady.blind, fun s base _ => h.carries s base trivial⟩

theorem noisy (h : Noisy sight p) : Carries m I L sight p := by
  refine ⟨.of h, fun s base hsight hs _ _ heq => ?_⟩
  obtain ⟨read, hfalse, -⟩ := h.silent s hsight hs heq
  exact hfalse.elim

theorem pure {a : α} (h : ∀ c, I c → L a c) : Carries m I L sight (Pure.pure a) :=
  ⟨Takes.pure fun _ => trivial, fun _ _ _ _ _ hI _ => hI.mono h⟩

theorem ite {c : Prop} [Decidable c] {p q : Parser α} (hp : c → Carries m I L sight p)
    (hq : ¬ c → Carries m I L sight q) : Carries m I L sight (if c then p else q) := by
  split
  · next h => exact hp h
  · next h => exact hq h

/-- A step, and what follows on it with what can be seen then. -/
theorem seen {M : α → Content → Prop} {f : α → Parser β} (hp : Carries m I M sight p)
    (hsteady : Steady sight (p >>= f))
    (hf : ∀ s, sight.Holds s → ∃ after : Sight, after.Holds (p s).2 ∧
      Carries m (M (p s).1) N after (f (p s).1)) : Carries m I N sight (p >>= f) := by
  refine ⟨hsteady, fun s base hsight hs hm hI heq => ?_⟩
  obtain ⟨after, hafter, hnext⟩ := hf s hsight
  have hfirst := (hp.steady.retains s hsight).reports_eq (hnext.steady.retains _ hafter) heq
  obtain ⟨read, -, htook⟩ := hp.steady.silent s hsight hs hfirst
  exact hnext.carries _ base hafter (hs.took htook) hm (hp.carries s base hsight hs hm hI hfirst)
    (heq.trans hfirst.symm)

theorem bind {M : α → Content → Prop} {f : α → Parser β} (hp : Carries m I M sight p)
    (hf : ∀ a, Carries m (M a) N .nothing (f a)) : Carries m I N sight (p >>= f) :=
  hp.seen (hp.steady.bind fun a => (hf a).steady) fun _ _ => ⟨.nothing, trivial, hf _⟩

/-- What is asked does not matter. -/
theorem question (h : Question p) (hL : ∀ a c, I c → L a c) : Carries m I L sight p := by
  refine ⟨.glance fun s _ => h.glances s, fun s base _ _ _ hI _ => ?_⟩
  exact (hI.of_built (h.tidy s hI.tidy) (h.built s)).mono (hL _)

/-- A question, after which the lexeme directly ahead is still known. -/
theorem asking {f : α → Parser β} (h : Question p)
    (hf : ∀ a, Carries m I N sight.inside (f a)) : Carries m I N sight (p >>= f) := by
  have hquestion : Carries m I (fun _ => I) sight p := question h fun _ _ hI => hI
  have hafter (s : State) (hs : sight.Holds s) : sight.inside.Holds (p s).2 :=
    hs.glances (h.glances s)
  refine hquestion.seen (Takes.seen hquestion.steady fun s hs => ?_) fun s hs => ?_
  · exact ⟨_, hafter s hs, fun _ => (hf _).steady.mono fun _ _ _ _ _ => trivial⟩
  · exact ⟨_, hafter s hs, hf _⟩

/-- The lexeme that one asks for is directly ahead. -/
theorem ask {f : Option Kind → Parser β} (hnone : Carries m I N .nothing (f none))
    (hsome : ∀ k, Carries m I N (.here k) (f (some k))) :
    Carries m I N .nothing (current >>= f) := by
  have hquestion : Carries m I (fun _ => I) .nothing current :=
    question .current fun _ _ hI => hI
  have hafter (s : State) : ∃ after : Sight, after.Holds (current s).2 ∧
      Carries m I N after (f (current s).1) := by
    rw [current_eq]
    cases hnext : s.next? with
    | none => exact ⟨.nothing, trivial, hnone⟩
    | some k =>
      exact ⟨.here k, (Sight.Holds.here_of_next? hnext).of_rest rfl (look_rest _), hsome k⟩
  refine hquestion.seen (Takes.seen hquestion.steady fun s _ => ?_) fun s _ => hafter s
  obtain ⟨after, hholds, hnext⟩ := hafter s
  exact ⟨after, hholds, fun _ => hnext.steady.mono fun _ _ _ _ _ => trivial⟩

/-- A lexeme that was asked for is directly ahead. -/
theorem askAt {f : Bool → Parser β} (hyes : Carries m I N (.here k) (f true))
    (hno : Carries m I N .nothing (f false)) : Carries m I N .nothing (isAt k >>= f) := by
  refine ask (f := fun l => f (l == some k)) hno fun l => ?_
  change Carries m I N (.here l) (f (l == k))
  cases hl : l == k with
  | true => exact eq_of_beq hl ▸ hyes
  | false => exact hno.blind

theorem inCommand {L : Unit → Content → Prop} {p : Parser Unit} (word : Option CommandWord)
    (h : Carries m I L sight p) : Carries m I L sight (Parser.inCommand word p) := by
  refine ⟨h.steady.inCommand word, fun s base hsight hs hm hI heq => ?_⟩
  have hafter := h.carries (entered word s) base (hsight.congr rfl rfl rfl)
    ⟨hs.stop, hs.rest, hs.limit⟩ hm (hI.of_built hI.tidy rfl) heq
  exact hafter.of_built hafter.tidy rfl

/-- What was put in since a mark is put under a node that holds what its shape asks for. -/
theorem wrapFrom {M N : Unit → Content → Prop} {p : Parser Unit} {shape : Shape}
    (h : Carries 0 I M sight.inside p) (hshape : ∀ c, M () c → shape.Holds c)
    (hN : N () (.part shape)) : Carries m I N sight (Parser.wrapFrom m shape p) := by
  refine ⟨h.steady.wrapFrom m shape, fun s base hsight hs hm hI heq => ?_⟩
  obtain ⟨new, hnew, hformed, hc⟩ := hI.built
  -- the trees since the mark are the new ones, and those before it are the base
  have hsince : sinceMark m s = new.length := by
    rw [sinceMark, hnew, List.length_append, hm, Nat.add_sub_cancel]
  have htake : (cut m s).built = new := by
    change s.built.take _ = new
    rw [hsince, hnew, List.take_left]
  have hdrop : s.built.drop (sinceMark m s) = base := by
    rw [hsince, hnew, List.drop_left]
  have hinner : (cut m s).Since [] I :=
    ⟨hI.tidy, new, htake.trans (List.append_nil new).symm, hformed, hc⟩
  have hafter := h.carries (cut m s) [] (hsight.inside rfl) ⟨hs.stop, hs.rest, hs.limit⟩ rfl hinner
    heq
  change ((p (cut m s)).2.closeNode shape (s.built.drop (sinceMark m s))).Since base (N ())
  rw [hdrop]
  have houter : State.Since base (· = .none) { s with built := base } :=
    ⟨hI.tidy, [], rfl, List.forall_mem_nil _, rfl⟩
  refine (hafter.closeNode hshape houter rfl).mono fun e he => ?_
  obtain ⟨c, rfl, rfl⟩ := he
  exact hN

/-! ### Repetition -/

theorem loopFrom {I : σ → Content → Prop} {body : σ → Parser (ForInStep σ)}
    (h : ∀ a, Carries m (I a) (fun step => I step.value) .nothing (body a)) :
    ∀ fuel a, Carries m (I a) I .nothing (Parser.loopFrom body fuel a) := by
  intro fuel
  induction fuel with
  | zero =>
    refine fun a => ⟨Steady.loopFrom (fun a => (h a).steady) 0 a, fun s base _ _ _ hI _ => ?_⟩
    exact hI.of_built hI.tidy rfl
  | succ fuel ih =>
    refine fun a => (h a).bind fun step => ?_
    cases step with
    | done b => exact .pure fun _ hI => hI
    | yield b => exact ih b

/-- What every round keeps holds in the end. -/
theorem loop {I : σ → Content → Prop} {init : σ} {body : σ → Parser (ForInStep σ)}
    (h : ∀ a, Carries m (I a) (fun step => I step.value) .nothing (body a)) :
    Carries m (I init) I .nothing (Parser.loop init body) :=
  ⟨.loop fun a => (h a).steady,
    fun s => (loopFrom h (s.rest.length + 2) init).carries s⟩

theorem whileTrue {body : Parser Bool} (h : Carries m I (fun _ => I) .nothing body) :
    Carries m I (fun _ => I) .nothing (Parser.whileTrue body) :=
  loop (I := fun _ => I) fun _ => h.bind fun _ => .pure fun _ hI => hI

end Carries

/-! ## Steps by themselves -/

/-- The closer of a group is put in where it is next. -/
theorem State.Since.close {base : List Tree} {closer : Kind} {s : State} (h : s.Since base I)
    (kind : DiagnosticKind) (hnext : s.next? = some closer) :
    (Parser.close closer kind s).2.Since base fun e => ∃ c, I c ∧ e = c ++ .word closer := by
  rw [close_eq, if_pos (beq_iff_eq.mpr hnext)]
  have hhere : (Sight.here closer).Holds (s.withNotes s.notes.closed).skipTrivia.look :=
    (Sight.Holds.here_of_next? (s := s.withNotes s.notes.closed) hnext).of_rest rfl (look_rest _)
  obtain ⟨l, ls, hrest, rfl, hl⟩ := hhere.1.rest_of_next? hhere.2
  have htidy : (s.withNotes s.notes.closed).skipTrivia.look.Tidy := by
    intro x hx
    rw [look_held] at hx
    exact tidy_skipTrivia (s := s.withNotes s.notes.closed) h.tidy x hx
  refine ((h.of_built htidy (look_built _)).bump hrest).mono fun e he => ?_
  rwa [if_neg (Bool.eq_false_iff.mp hl)] at he

namespace Forms

variable {M M' : α → Content → Prop}

/-- What stands before a step stays where it is. -/
theorem frame (h : Forms M sight p) (hL : ∀ c a d, I c → M a d → L a (c ++ d)) :
    Carries m I L sight p := by
  refine ⟨(h 0).steady, fun s base hsight hs _ hI heq => ?_⟩
  -- all that stands there is the base of the step, so that only what it puts in is new to it
  have hafter := (h s.built.length).carries s s.built hsight hs rfl (since_built hI.tidy) heq
  refine (hI.extend hafter).mono fun e he => ?_
  obtain ⟨c, d, hc, hd, rfl⟩ := he
  exact hL c _ d hc hd

theorem mono (h : Forms M sight p) (hM : ∀ a c, M a c → M' a c) : Forms M' sight p :=
  fun m => (h m).mono hM

theorem blind (h : Forms M .nothing p) : Forms M sight p := fun m => (h m).blind

theorem noisy (h : Noisy sight p) : Forms M sight p := fun _ => .noisy h

theorem pure {a : α} (h : M a .none) : Forms M sight (Pure.pure a) :=
  fun _ => .pure fun _ hc => hc ▸ h

theorem ite {c : Prop} [Decidable c] {p q : Parser α} (hp : c → Forms M sight p)
    (hq : ¬ c → Forms M sight q) : Forms M sight (if c then p else q) :=
  fun m => .ite (fun h => hp h m) fun h => hq h m

/-- One step after another. -/
theorem bind {f : α → Parser β} {K : α → β → Content → Prop} (hp : Forms M sight p)
    (hf : ∀ a, Forms (K a) .nothing (f a))
    (hN : ∀ a b c d, M a c → K a b d → N b (c ++ d)) : Forms N sight (p >>= f) :=
  fun m => (hp m).bind fun a => (hf a).frame fun _ b _ hc hd => hN a b _ _ hc hd

theorem asking {f : α → Parser β} (h : Question p) (hf : ∀ a, Forms N sight.inside (f a)) :
    Forms N sight (p >>= f) :=
  fun m => .asking h fun a => hf a m

theorem ask {f : Option Kind → Parser β} (hnone : Forms N .nothing (f none))
    (hsome : ∀ k, Forms N (.here k) (f (some k))) : Forms N .nothing (current >>= f) :=
  fun m => .ask (hnone m) fun k => hsome k m

theorem askAt {f : Bool → Parser β} (hyes : Forms N (.here k) (f true))
    (hno : Forms N .nothing (f false)) : Forms N .nothing (isAt k >>= f) :=
  fun m => .askAt (hyes m) (hno m)

/-- What every round keeps, from the first one on. -/
theorem loop {I : σ → Content → Prop} {init : σ} {body : σ → Parser (ForInStep σ)}
    (hinit : I init .none)
    (h : ∀ m a, Carries m (I a) (fun step => I step.value) .nothing (body a)) :
    Forms I .nothing (Parser.loop init body) := by
  intro m
  have hloop : Carries m (I init) I .nothing (Parser.loop init body) := .loop (h m)
  exact ⟨hloop.steady, fun s base hsight hs hm hI heq =>
    hloop.carries s base hsight hs hm (hI.mono fun _ hc => hc ▸ hinit) heq⟩

/-- The lexeme directly ahead is put in. -/
theorem bumpHere : Forms (fun _ c => c = .word k) (.here k) bump := by
  refine fun m => ⟨.of (Takes.bump rfl), fun s base hs _ _ hI _ => ?_⟩
  obtain ⟨l, ls, hrest, rfl, hl⟩ := hs.1.rest_of_next? hs.2
  refine (hI.bump hrest).mono fun e he => ?_
  obtain ⟨c, rfl, rfl⟩ := he
  rw [if_neg (Bool.eq_false_iff.mp hl)]
  rfl

/-- A lexeme is no part. -/
theorem bump : Forms (fun _ c => c.parts = []) .nothing Parser.bump := by
  refine fun m => ⟨Steady.bump, fun s base _ _ _ hI _ => ?_⟩
  change s.bump.Since base _
  cases hrest : s.rest with
  | nil =>
    rw [State.bump, hrest]
    exact (hI.mono fun c hc => by rw [hc]; rfl).of_built hI.tidy rfl
  | cons l ls =>
    refine (hI.bump hrest).mono fun e he => ?_
    obtain ⟨c, rfl, rfl⟩ := he
    split <;> rfl

theorem inCommand {M : Unit → Content → Prop} {p : Parser Unit} (word : Option CommandWord)
    (h : Forms M sight p) : Forms M sight (Parser.inCommand word p) := fun m => (h m).inCommand word

/-- A node is put in if it holds what its shape asks for. -/
theorem node {shape : Shape} (h : Forms M sight.inside p) (hshape : ∀ a c, M a c → shape.Holds c) :
    Forms (fun _ c => c = .part shape) sight (Parser.node shape p) := by
  refine fun m => ⟨(h 0).steady.node shape, fun s base hsight hs _ hI heq => ?_⟩
  have hinner := (h 0).carries (opened s) [] (hsight.inside rfl) ⟨hs.stop, hs.rest, hs.limit⟩ rfl
    (since_opened s) heq
  refine (hinner.closeNode (hshape _) hI.drain rfl).mono fun e he => ?_
  obtain ⟨c, rfl, rfl⟩ := he
  rfl

/-- Trivia is put in, which does not count. -/
theorem eatTrivia : Forms (fun _ c => c = .none) sight Parser.eatTrivia := by
  refine fun m => ⟨.glance fun s _ => glances_eatTrivia s, fun s base _ _ _ hI _ => ?_⟩
  exact (hI.of_built (tidy_skipTrivia hI.tidy) rfl : s.skipTrivia.Since base _).drain

/-- What is wrapped from a mark stands after it. -/
theorem marked {f : Nat → Parser β} (h : ∀ n, Carries n (· = .none) N .nothing (f n)) :
    Forms N .nothing (mark >>= f) := by
  have hmark (s : State) : Glances s (mark s).2 := glances_eatTrivia s
  refine fun m => ⟨?_, fun s base _ hs hm hI heq => ?_⟩
  · refine Takes.seen (Steady.glance fun s _ => hmark s) fun s _ => ⟨.nothing, trivial, fun _ => ?_⟩
    exact (h _).steady.mono fun _ _ _ _ _ => trivial
  · obtain ⟨read, -, htook⟩ := (hmark s).took
    have hdrained : (mark s).2.Since base (· = .none) :=
      (hI.of_built (tidy_skipTrivia hI.tidy) rfl : s.skipTrivia.Since base _).drain
    have hafter := (h (mark s).2.built.length).carries (mark s).2 (mark s).2.built trivial
      (hs.took htook) rfl (since_built hdrained.tidy) (heq.trans htook.reports.symm)
    refine (hdrained.extend hafter).mono fun e he => ?_
    obtain ⟨c, d, rfl, hd, rfl⟩ := he
    exact hd

/-- One level further down. -/
theorem descend {M : Unit → Content → Prop} {below : Option Inner} {body : Inner → Parser Unit}
    (stopAtPipe : Bool) (h : ∀ inner ∈ below, Forms M .nothing (body inner)) :
    Forms M .nothing (Parser.descend below stopAtPipe body) := by
  cases below with
  -- what is too deep is noted, and then nothing has to be shown
  | none => exact .noisy (.descend_none _ _)
  | some inner =>
    intro m
    have hinner := h inner rfl m
    refine ⟨Takes.descend _ fun i hi => (h i hi m).steady, fun s base _ hs hm hI heq => ?_⟩
    have hafter := hinner.carries s.refresh base trivial ⟨hs.stop, hs.rest, hs.limit⟩ hm
      (hI.of_built hI.tidy rfl) heq
    exact hafter.of_built hafter.tidy rfl

/-- A group holds what is put in between its delimiters, which are no parts. -/
theorem group {opener closer : Kind} {kind : DiagnosticKind} {opening : Parser α} {body : Parser β}
    (hopening : Forms (fun _ c => c.parts = []) .nothing opening) (hbody : Forms N .nothing body) :
    Forms (fun _ c => ∃ b d, N b d ∧ c.parts = d.parts) sight
      (pushOpener opener >>= fun _ => opening >>= fun _ => body >>= fun _ =>
        close closer kind) := by
  have hinside : Forms (fun b c => ∃ d, N b d ∧ c.parts = d.parts) .nothing
      (opening >>= fun _ => body) :=
    hopening.bind (fun _ => hbody) fun _ _ c d hc hd =>
      ⟨d, hd, by rw [Content.parts_append, hc, List.nil_append]⟩
  refine fun m => ⟨Steady.group (hopening 0).steady (hbody 0).steady,
    fun s base _ hs hm hI heq => ?_⟩
  have hpushed : Took (s.rest.takeWhile Lexeme.isTrivia) s (pushOpener opener s).2 :=
    ⟨(took_skipTrivia s).rest, rfl, rfl, rfl⟩
  have hopened : (pushOpener opener s).2.Since base (· = .none) :=
    hI.of_built (tidy_skipTrivia hI.tidy) rfl
  obtain ⟨hsame, ⟨read, htook⟩, hnext, -⟩ := (hinside 0).steady.close_after (hs.took hpushed)
    (List.cons_ne_nil _ _) heq
  have hbefore := (hinside m).carries _ base trivial (hs.took hpushed) hm hopened hsame
  refine (hbefore.close kind hnext).mono fun e he => ?_
  obtain ⟨c, ⟨d, hd, hparts⟩, rfl⟩ := he
  exact ⟨_, d, hd, by rw [Content.parts_append, hparts, Content.word, List.append_nil]⟩

/-- What is passed over of a stage is noted. -/
theorem recover {M : Unit → Content → Prop} (kind : DiagnosticKind) (detail : String) :
    Forms M .nothing (Parser.recover kind detail) := by
  refine .asking .atStageEnd fun _ => .ite (fun _ => .noisy (.reportWith _ _)) fun _ => ?_
  exact .noisy (Takes.node _ (.noisyThen (.reportWith _ _) (fun _ _ => Takes.reportWith_ne _ _)
    fun _ => .skipBalanced _))

/-- A lexeme may be put in. -/
theorem eat (kind : Kind) : Forms (fun _ c => c.parts = []) .nothing (Parser.eat kind) :=
  .asking (.isAt kind) fun _ => .ite
    (fun _ => bump.bind (K := fun _ _ c => c = .none) (fun _ => .pure rfl) fun _ _ c d hc hd => by
      rw [hd, Content.append_none, hc])
    fun _ => .pure rfl

/-- A lexeme is put in. -/
theorem expect (kind : Kind) (spelling : String) :
    Forms (fun b c => b = true ∧ c.parts = []) .nothing (Parser.expect kind spelling) := by
  refine (eat kind).bind (K := fun _ b c => b = true ∧ c = .none) (fun b => .ite (fun _ => ?_)
    fun _ => ?_) fun _ _ c d hc hd => ⟨hd.1, ?_⟩
  · exact .pure ⟨rfl, rfl⟩
  · exact .noisy (.noisyThen (.reportWith _ _) (fun _ _ => Takes.reportWith_ne _ _) fun _ =>
      .of_notes fun _ => rfl)
  · rw [hd.2, Content.append_none, hc]

end Forms

end Triples

/-! ## Nodes of a class -/

section Classes

open SplQuery.Parser

variable {member member' : Shape → Bool} {shape : Shape} {sight : Sight} {α β σ : Type}
  {p : Parser α}

namespace PutsNode

theorem one (h : PutsNode shape sight p) (hshape : member shape = true) : PutsOne member sight p :=
  Forms.mono h fun _ _ hc => hc ▸ Shape.one_singleton hshape

theorem puts (h : PutsNode shape sight p) (hshape : member shape = true) : Puts member sight p :=
  Forms.mono h fun _ _ hc => hc ▸ Shape.only_singleton.mpr hshape

end PutsNode

theorem PutsOne.puts (h : PutsOne member sight p) : Puts member sight p :=
  Forms.mono h fun _ _ hc => hc.only

namespace Puts

theorem wider (h : Puts member sight p) (hmember : ∀ s, member s = true → member' s = true) :
    Puts member' sight p :=
  Forms.mono h fun _ _ hc => hc.mono hmember

theorem pure (a : α) : Puts member sight (Pure.pure a) := Forms.pure Shape.only_nil

/-- Lexemes are of every class. -/
theorem of_none (h : Forms (fun _ c => c.parts = []) sight p) : Puts member sight p :=
  Forms.mono h fun _ _ hc => hc ▸ Shape.only_nil

theorem bump : Puts member .nothing Parser.bump := of_none .bump

theorem eat (kind : Kind) : Puts member .nothing (Parser.eat kind) := of_none (.eat kind)

theorem expect (kind : Kind) (spelling : String) :
    Puts member .nothing (Parser.expect kind spelling) :=
  of_none ((Forms.expect kind spelling).mono fun _ _ hc => hc.2)

theorem bind {f : α → Parser β} (hp : Puts member sight p)
    (hf : ∀ a, Puts member .nothing (f a)) : Puts member sight (p >>= f) :=
  Forms.bind hp hf fun _ _ _ _ hc hd => Shape.only_append.mpr ⟨hc, hd⟩

/-- After what is of the same class. -/
theorem after {I : Content → Prop} (h : Puts member sight p) (m : Nat)
    (hI : ∀ c, I c → Shape.Only member c.parts) :
    Carries m I (fun _ c => Shape.Only member c.parts) sight p :=
  Forms.frame h fun c _ _ hc hd => Shape.only_append.mpr ⟨hI c hc, hd⟩

theorem loop {init : σ} {body : σ → Parser (ForInStep σ)}
    (h : ∀ a, Puts member .nothing (body a)) : Puts member .nothing (Parser.loop init body) :=
  Forms.loop (I := fun _ c => Shape.Only member c.parts) Shape.only_nil fun m a =>
    (h a).after m fun _ hc => hc

theorem whileTrue {body : Parser Bool} (h : Puts member .nothing body) :
    Puts member .nothing (Parser.whileTrue body) :=
  loop fun _ => h.bind fun _ => pure _

theorem group {opener closer : Kind} {kind : DiagnosticKind} {opening : Parser α} {body : Parser β}
    (hopening : Forms (fun _ c => c.parts = []) .nothing opening)
    (hbody : Puts member .nothing body) : Puts member sight
      (pushOpener opener >>= fun _ => opening >>= fun _ => body >>= fun _ =>
        close closer kind) :=
  (Forms.group hopening hbody).mono fun _ c hc => by
    obtain ⟨_, d, hd, hparts⟩ := hc
    exact hparts ▸ hd

end Puts

end Classes

end SplQuery
