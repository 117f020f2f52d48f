import SplQuery.Proofs.Made.Command
import SplQuery.Proofs.Made.Sights

/-!
# Faults stay

A state never loses a fault: from a step that ends without one, the state before it was without one
as well. Of a whole query, which ends without a fault, this says that there is none on the way.

* `KeepsFaults` — a step of this kind.
* `Alike.keepsFaults` — every production is of this kind, where it starts with what it is to see.
-/

namespace SplQuery

namespace Parser

variable {α β σ : Type}

section Rounds

variable {body : σ → Parser (ForInStep σ)} {fuel : Nat} {a b : σ} {s t : State}

theorem loopFrom_done (h : body a s = (.done b, t)) : loopFrom body (fuel + 1) a s = (b, t) := by
  simp only [loopFrom, bind, StateT.bind, h]
  rfl

theorem loopFrom_yield (h : body a s = (.yield b, t)) :
    loopFrom body (fuel + 1) a s = loopFrom body fuel b t := by
  simp only [loopFrom, bind, StateT.bind, h]

end Rounds

section Rounds

variable {body : Parser Bool} {s t : State}

/-- Where the first answer is no there are no further rounds. -/
theorem whileTrue_no (h : body s = (false, t)) : whileTrue body s = ((), t) := by
  have hround : roundOf body () s = (.done (), t) := by
    change (Pure.pure (if (body s).1 = true then _ else _) : Parser _) (body s).2 = _
    rw [h]
    rfl
  exact loopFrom_done hround

theorem whileTrue_yes (h : body s = (true, t)) :
    whileTrue body s = loopFrom (roundOf body) (s.rest.length + 1) () t := by
  have hround : roundOf body () s = (.yield (), t) := by
    change (Pure.pure (if (body s).1 = true then _ else _) : Parser _) (body s).2 = _
    rw [h]
    rfl
  exact loopFrom_yield hround

end Rounds

/-- Where the step ends without a fault, there was none before. -/
def KeepsFaults (p : Parser α) : Prop := ∀ s, (p s).2.fault = none → s.fault = none

namespace KeepsFaults

theorem pure (a : α) : KeepsFaults (Pure.pure a) := fun _ h => h

theorem bind {p : Parser α} {f : α → Parser β} (hp : KeepsFaults p)
    (hf : ∀ a, KeepsFaults (f a)) : KeepsFaults (p >>= f) :=
  fun s h => hp s (hf _ _ h)

theorem modify {g : State → State} (h : ∀ s, (g s).fault = none → s.fault = none) :
    KeepsFaults (modify g) := h

theorem get : KeepsFaults get := fun _ h => h

theorem ite {c : Prop} [Decidable c] {p q : Parser α} (hp : KeepsFaults p) (hq : KeepsFaults q) :
    KeepsFaults (if c then p else q) := by
  split
  · exact hp
  · exact hq

theorem withFault (s : State) (f : Fault) (h : (s.withFault f).fault = none) : s.fault = none :=
  (Option.or_eq_none_iff.mp h).1

theorem look (s : State) (h : s.look.fault = none) : s.fault = none := by
  unfold State.look at h
  split at h
  · exact withFault s _ h
  · exact h

/-! ## Looking ahead -/

theorem current : KeepsFaults Parser.current :=
  (modify fun s h => look s.skipTrivia h).bind fun _ => get.bind fun _ => pure _

theorem currentSpan : KeepsFaults Parser.currentSpan := fun _ h => h

theorem currentText : KeepsFaults Parser.currentText := fun _ h => h

theorem isAt (kind : Kind) : KeepsFaults (Parser.isAt kind) := current.bind fun _ => pure _

theorem isIn (member : Kind → Bool) : KeepsFaults (Parser.isIn member) :=
  current.bind fun _ => pure _

theorem atStageEnd : KeepsFaults Parser.atStageEnd := current.bind fun _ => pure _

theorem require (member : Kind → Bool) : KeepsFaults (Parser.require member) :=
  (isIn member).bind fun _ => ite (pure _) (modify fun s h => withFault s _ h)

/-! ## Building the tree -/

theorem bump : KeepsFaults Parser.bump := by
  refine modify fun s h => ?_
  unfold State.bump at h
  split at h
  · exact withFault s _ h
  · exact h

theorem eat (kind : Kind) : KeepsFaults (Parser.eat kind) :=
  (isAt kind).bind fun _ => ite (bump.bind fun _ => pure _) (pure _)

theorem node {p : Parser α} (shape : Shape) (h : KeepsFaults p) :
    KeepsFaults (Parser.node shape p) :=
  fun s hfault => h (opened s) hfault

theorem wrapFrom {p : Parser Unit} (place : Nat) (shape : Shape) (h : KeepsFaults p) :
    KeepsFaults (Parser.wrapFrom place shape p) :=
  fun s hfault => h (cut place s) hfault

/-! ## Noting what is wrong -/

theorem fresh (place : Nat) : KeepsFaults (Parser.fresh place) := by
  refine get.bind fun s => ?_
  split
  · exact pure _
  · exact bind (modify fun _ h => h) fun _ => pure _

theorem reportAt (kind : DiagnosticKind) (span : Span) (detail : Option String) :
    KeepsFaults (Parser.reportAt kind span detail) :=
  (fresh _).bind fun _ => ite (modify fun _ h => h) (pure _)

theorem report (kind : DiagnosticKind) : KeepsFaults (Parser.report kind) :=
  currentSpan.bind fun _ => reportAt _ _ _

theorem reportWith (kind : DiagnosticKind) (detail : String) :
    KeepsFaults (Parser.reportWith kind detail) :=
  currentSpan.bind fun _ => reportAt _ _ _

theorem bumpAsError : KeepsFaults Parser.bumpAsError :=
  get.bind fun _ => ite (pure _) (node _ bump)

/-! ## Repetition -/

theorem loopFrom {body : σ → Parser (ForInStep σ)} (h : ∀ a, KeepsFaults (body a)) :
    ∀ fuel a, KeepsFaults (Parser.loopFrom body fuel a) := by
  intro fuel
  induction fuel with
  | zero => exact fun a => (modify fun s h => withFault s _ h).bind fun _ => pure _
  | succ fuel ih =>
    refine fun a => (h a).bind fun step => ?_
    cases step with
    | done b => exact pure b
    | yield b => exact ih b

/-- Repetition without a fault has a first round without one. -/
theorem firstRound {body : σ → Parser (ForInStep σ)} {fuel : Nat} {a : σ} {s : State}
    (h : ∀ a, KeepsFaults (body a))
    (hfault : (Parser.loopFrom body (fuel + 1) a s).2.fault = none) :
    (body a s).2.fault = none := by
  rcases hround : body a s with ⟨b | b, t⟩
  · rw [loopFrom_done hround] at hfault
    exact hfault
  · rw [loopFrom_yield hround] at hfault
    exact loopFrom h _ _ _ hfault

theorem loop {init : σ} {body : σ → Parser (ForInStep σ)} (h : ∀ a, KeepsFaults (body a)) :
    KeepsFaults (Parser.loop init body) :=
  get.bind fun _ => loopFrom h _ _

theorem whileTrue {body : Parser Bool} (h : KeepsFaults body) :
    KeepsFaults (Parser.whileTrue body) :=
  loop fun _ => h.bind fun _ => pure _

/-! ## Delimiters, recovery and nesting -/

theorem pushOpener (kind : Kind) : KeepsFaults (Parser.pushOpener kind) :=
  currentSpan.bind fun _ => modify fun _ h => h

theorem reportUnclosed (kind : DiagnosticKind) (opener : Opener) :
    KeepsFaults (Parser.reportUnclosed kind opener) :=
  currentSpan.bind fun _ => (fresh _).bind fun _ => ite (modify fun _ h => h) (pure _)

theorem close (closer : Kind) (kind : DiagnosticKind) : KeepsFaults (Parser.close closer kind) := by
  refine get.bind fun s => ?_
  refine bind (modify fun _ h => h) fun _ => (eat closer).bind fun _ => ite (pure _) ?_
  cases s.openers.head? with
  | none => exact pure _
  | some opener => exact reportUnclosed kind opener

theorem skipOne (stopAtPipe : Bool) (depth : Nat) :
    KeepsFaults (Parser.skipOne stopAtPipe depth) := by
  refine current.bind fun k => ?_
  have hstep (d : Nat) : KeepsFaults (Parser.bump >>= fun _ => Pure.pure (ForInStep.yield d)) :=
    bump.bind fun _ => pure _
  split
  · exact pure _
  · exact ite (pure _) (hstep _)
  · exact ite (pure _) (hstep _)
  all_goals exact hstep _

theorem skipBalanced (stopAtPipe : Bool) : KeepsFaults (Parser.skipBalanced stopAtPipe) :=
  (loop fun _ => skipOne _ _).bind fun _ => pure _

theorem recover (kind : DiagnosticKind) (detail : String) :
    KeepsFaults (Parser.recover kind detail) :=
  atStageEnd.bind fun _ => ite (reportWith _ _)
    (node _ ((reportWith _ _).bind fun _ => skipBalanced _))

theorem inCommand {p : Parser Unit} (word : Option CommandWord) (h : KeepsFaults p) :
    KeepsFaults (Parser.inCommand word p) :=
  fun s hfault => h (entered word s) hfault

theorem descend {below : Option Inner} {stopAtPipe : Bool} {body : Inner → Parser Unit}
    (h : ∀ inner ∈ below, KeepsFaults (body inner)) :
    KeepsFaults (Parser.descend below stopAtPipe body) := by
  cases below with
  | some inner => exact fun s hfault => h inner rfl s.refresh hfault
  | none =>
    refine currentSpan.bind fun _ => get.bind fun _ => ?_
    exact ite (node _ (skipBalanced _)) ((reportAt _ _ _).bind fun _ => node _ (skipBalanced _))

end KeepsFaults

end Parser

namespace Grammar

open SplQuery.Parser

/-- What is nested keeps faults. -/
structure InnerKeepsFaults (inner : Inner) : Prop where
  pipeline : KeepsFaults inner.pipeline
  nested : ∀ body, Nestable body → KeepsFaults (body inner)

end Grammar

theorem Parser.KeepsFaults.subsearch {below : Option Inner}
    (hbelow : ∀ inner ∈ below, Grammar.InnerKeepsFaults inner) :
    KeepsFaults (Grammar.subsearch below) :=
  (KeepsFaults.require _).bind fun _ => .node _ <| (KeepsFaults.pushOpener _).bind fun _ =>
    KeepsFaults.bump.bind fun _ =>
      (KeepsFaults.inCommand _ (.descend fun inner h => (hbelow inner h).pipeline)).bind fun _ =>
        .close _ _

namespace Grammar

open SplQuery.Parser

/-- Where the step starts with what is to be seen and ends without a fault, there was none before
it. -/
def KeepsFaultsAt {α : Type} (sight : Sight) (p : Parser α) : Prop :=
  ∀ s, sight.Holds s → (p s).2.fault = none → s.fault = none

namespace KeepsFaultsAt

open SplQuery.State

variable {α β σ : Type} {sight : Sight} {k : Kind} {p : Parser α}

theorem of_always (h : KeepsFaults p) : KeepsFaultsAt sight p := fun s _ hfault => h s hfault

theorem always (h : KeepsFaultsAt .nothing p) : KeepsFaults p := fun s hfault => h s trivial hfault

theorem bind {f : α → Parser β} (hp : KeepsFaultsAt sight p)
    (hf : ∀ a, KeepsFaultsAt .nothing (f a)) : KeepsFaultsAt sight (p >>= f) :=
  fun s hs h => hp s hs (hf _ _ trivial h)

/-- A step after which something is seen. -/
theorem peek {f : α → Parser β} (hp : KeepsFaults p) (hf : ∀ s, sight.Holds s →
    ∃ after : Sight, after.Holds (p s).2 ∧ KeepsFaultsAt after (f (p s).1)) :
    KeepsFaultsAt sight (p >>= f) := by
  intro s hs hfault
  obtain ⟨after, hafter, h⟩ := hf s hs
  exact hp s (h _ hafter hfault)

/-- The answer to the question for the next lexeme. -/
theorem ask {f : Option Kind → Parser β} (hf : f none = f (some .pipe))
    (hnone : KeepsFaultsAt .nothing (f none))
    (hsome : ∀ k, k ≠ .pipe → KeepsFaultsAt (.here k) (f (some k))) :
    KeepsFaultsAt .nothing (current >>= f) :=
  peek .current fun s _ => current_sees (P := KeepsFaultsAt) hf hnone hsome s

theorem look {f : Option Kind → Parser β} (hsight : sight.past.first? = some k)
    (h : KeepsFaultsAt sight.past (f (some k))) : KeepsFaultsAt sight (current >>= f) :=
  peek .current fun _ hs => current_shows (P := KeepsFaultsAt) hsight h hs

theorem askSecond {f : Option Kind → Parser β} (hf : f none = f (some .pipe))
    (hnone : KeepsFaultsAt (.here k) (f none))
    (hsome : ∀ l, l ≠ .pipe → KeepsFaultsAt (.pair k l) (f (some l))) :
    KeepsFaultsAt (.here k) (ahead >>= f) :=
  peek (fun _ h => h) fun _ hs => ahead_sees (P := KeepsFaultsAt) hf hnone hsome hs

theorem touching {f : Option Kind → Parser β} {a : β}
    (hf : f (some .pipe) = Pure.pure a)
    (h : ∀ k, k ≠ .pipe → KeepsFaultsAt (.here k) (f (some k))) :
    KeepsFaultsAt .nothing
      (glued >>= fun b => if b = true then adjacent >>= f else Pure.pure a) := by
  intro s _ hfault
  obtain ⟨after, p, t, ht, hafter, hp, heq⟩ :=
    touching_sees (P := KeepsFaultsAt) hf (of_always (.pure a)) h s
  rw [heq] at hfault
  have hfault : t.fault = none := hp t hafter hfault
  rcases ht with rfl | rfl
  · exact hfault
  · exact KeepsFaults.look s hfault

theorem require {member : Kind → Bool} {f : Unit → Parser β} (hsight : sight.first? = some k)
    (hmember : member k = true) (h : KeepsFaultsAt sight (f ())) :
    KeepsFaultsAt sight (Parser.require member >>= f) := by
  intro s hs hfault
  change (f (Parser.require member s).1 (Parser.require member s).2).2.fault = none at hfault
  rw [require_eq (hs.ready hsight).2 hmember] at hfault
  exact KeepsFaults.look s.skipTrivia
    (h s.skipTrivia.look ((hs.skipTrivia hsight).of_rest hsight (look_rest _)) hfault)

/-- A lexeme is read that is known to be ahead. -/
theorem bump {f : Unit → Parser β} (hsight : sight.first? = some k)
    (h : KeepsFaultsAt sight.afterBump (f ())) : KeepsFaultsAt sight (Parser.bump >>= f) :=
  fun s hs hfault => KeepsFaults.bump s (h _ (hs.bump hsight) hfault)

theorem node {p : Parser α} (shape : Shape) (hp : KeepsFaultsAt sight.inside p) :
    KeepsFaultsAt sight (Parser.node shape p) :=
  fun s hs hfault => hp (opened s) (hs.inside rfl) hfault

theorem mark {f : Nat → Parser β} (h : ∀ m, KeepsFaultsAt sight.past (f m)) :
    KeepsFaultsAt sight (Parser.mark >>= f) :=
  fun s hs hfault => h _ s.skipTrivia.drain (hs.past.past_of_rest rfl) hfault

theorem wrapFrom {p : Parser Unit} (place : Nat) (shape : Shape)
    (hp : KeepsFaultsAt sight.inside p) :
    KeepsFaultsAt sight (Parser.wrapFrom place shape p) :=
  fun s hs hfault => hp (cut place s) (hs.inside rfl) hfault

section Aliased

variable {member : Kind → Bool} {part : Parser Unit}

theorem nameAfter (hmember : member .pipe = false) (h : ∀ k, KeepsFaultsAt (.here k) part)
    (start : Nat) : KeepsFaults (Grammar.nameAfter start member part) := by
  have hmissing : KeepsFaults (Parser.reportWith .expectedField "after \x60as\x60") :=
    .reportWith _ _
  have hname : KeepsFaultsAt .nothing (otherName member part) := by
    refine ask (f := fun k => if k.any member = true then part else _) ?_ (of_always hmissing)
      fun k _ => ?_
    · rw [Option.any_some, hmember]
      rfl
    · split
      · exact h k
      · exact of_always hmissing
  exact (KeepsFaults.isAt _).bind fun _ =>
    .ite (.wrapFrom _ _ (KeepsFaults.bump.bind fun _ => hname.always)) (.pure _)

theorem aliased (hmember : member .pipe = false) (h : ∀ k, KeepsFaultsAt (.here k) part) :
    KeepsFaultsAt (.here k) (Grammar.aliased member part) :=
  mark fun m => (h k).bind fun _ => of_always (nameAfter hmember h m)

end Aliased

theorem loop {init : σ} {body : σ → Parser (ForInStep σ)}
    (hfirst : KeepsFaultsAt sight (body init)) (hothers : ∀ a, KeepsFaultsAt .nothing (body a)) :
    KeepsFaultsAt sight (Parser.loop init body) :=
  fun s hs hfault => hfirst s hs (KeepsFaults.firstRound (fun a => (hothers a).always) hfault)

end KeepsFaultsAt

/-- A production ends without a fault only where there was none before it. -/
theorem Alike.keepsFaults {below : Option Inner} {paired : Bool} {marks : Option (Nat × Nat)}
    {sight : Sight} {reads : Bool} {α : Type} {p q : Parser α}
    (hbelow : ∀ inner ∈ below, InnerKeepsFaults inner)
    (h : Alike (.same below) paired marks sight reads p q) :
    KeepsFaultsAt sight p ∧ KeepsFaultsAt sight q := by
  induction h with
  | blind _ ih => exact ⟨.of_always ih.1.always, .of_always ih.2.always⟩
  | narrow _ ih => exact ⟨fun s hs => ih.1 s ⟨hs.1, hs.2.1⟩, fun s hs => ih.2 s ⟨hs.1, hs.2.1⟩⟩
  | forget _ ih => exact ih
  | pure a => exact ⟨.of_always (.pure a), .of_always (.pure a)⟩
  | bind _ _ ih ihf => exact ⟨ih.1.bind fun a => (ihf a).1, ih.2.bind fun a => (ihf a).2⟩
  | ask hf hg _ _ ihnone ihsome =>
    exact ⟨.ask hf ihnone.1 fun k hk => (ihsome k hk).1,
      .ask hg ihnone.2 fun k hk => (ihsome k hk).2⟩
  | look hsight _ ih => exact ⟨.look hsight ih.1, .look hsight ih.2⟩
  | askSecond hf hg _ _ ihnone ihsome =>
    exact ⟨.askSecond hf ihnone.1 fun l hl => (ihsome l hl).1,
      .askSecond hg ihnone.2 fun l hl => (ihsome l hl).2⟩
  | idleSecond hf hg _ ih =>
    exact ⟨fun s _ h => ih.1 s.skipTrivia trivial (hf (ahead s).1 ▸ h),
      fun s _ h => ih.2 s.skipTrivia trivial (hg (ahead s).1 ▸ h)⟩
  | text hsight _ ih =>
    exact ⟨fun s hs h => (ih _).1 s.skipTrivia (hs.skipTrivia hsight) h,
      fun s hs h => (ih _).2 s.skipTrivia (hs.skipTrivia hsight) h⟩
  | idleText hf hg _ ih =>
    exact ⟨fun s _ h => ih.1 s.skipTrivia trivial (hf (currentText s).1 ▸ h),
      fun s _ h => ih.2 s.skipTrivia trivial (hg (currentText s).1 ▸ h)⟩
  | touching hf hg _ ih =>
    exact ⟨.touching hf fun k hk => (ih k hk).1, .touching hg fun k hk => (ih k hk).2⟩
  | require hsight hmember _ ih =>
    exact ⟨.require hsight hmember ih.1, .require hsight hmember ih.2⟩
  | bump hsight _ _ ih => exact ⟨.bump hsight ih.1, .bump hsight ih.2⟩
  | bumpBlindly _ _ ih =>
    exact ⟨.of_always (.bind .bump fun _ => ih.1.always),
      .of_always (.bind .bump fun _ => ih.2.always)⟩
  | node _ _ _ ih => exact ⟨.node _ ih.1, .node _ ih.2⟩
  | byRecipe _ _ _ ih => exact ⟨.node _ ih.1, .node _ ih.2⟩
  | searchNode _ _ _ ih =>
    exact ⟨.of_always (.node _ ih.1.always), .of_always (.node _ ih.2.always)⟩
  | mark _ ih => exact ⟨.mark fun m => (ih m 0).1, .mark fun n => (ih 0 n).2⟩
  | wrapFrom _ _ _ ih => exact ⟨.wrapFrom _ _ ih.1, .wrapFrom _ _ ih.2⟩
  | aliased _ _ hmember _ _ ih _ =>
    exact ⟨.aliased hmember fun k => .node _ (ih k).1, .aliased hmember fun k => .node _ (ih k).2⟩
  | report kind => exact ⟨.of_always (.report _), .of_always (.report _)⟩
  | reportWith kind detail => exact ⟨.of_always (.reportWith _ _), .of_always (.reportWith _ _)⟩
  | refuse _ kind =>
    have h : KeepsFaults (Parser.refuse kind) := .bind (.report _) fun _ => .bumpAsError
    exact ⟨.of_always h, .of_always h⟩
  | refuseWith _ kind detail =>
    have h : KeepsFaults (Parser.refuseWith kind detail) :=
      .bind (.reportWith _ _) fun _ => .bumpAsError
    exact ⟨.of_always h, .of_always h⟩
  | recover kind detail => exact ⟨.of_always (.recover _ _), .of_always (.recover _ _)⟩
  | pushOpener kind _ ih =>
    exact ⟨fun s hs h => ih.1 (Parser.pushOpener kind s).2 (hs.past.past_of_rest rfl) h,
      fun s hs h => ih.2 (Parser.pushOpener kind s).2 (hs.past.past_of_rest rfl) h⟩
  | close _ kind => exact ⟨.of_always (.close _ _), .of_always (.close _ _)⟩
  | grouped _ _ _ _ ih => exact ih
  | balanced _ ih => exact ih
  | inCommand word _ ih =>
    exact ⟨fun s hs h => ih.1 (entered word s) (hs.congr rfl rfl rfl) h,
      fun s hs h => ih.2 (entered word s) (hs.congr rfl rfl rfl) h⟩
  | loop _ _ ih ih' => exact ⟨.loop ih.1 fun a => (ih' a).1, .loop ih.2 fun a => (ih' a).2⟩
  | descend hbody =>
    have h := fun inner hi => (hbelow inner hi).nested _ hbody
    exact ⟨.of_always (.descend h), .of_always (.descend h)⟩
  | subsearch => exact ⟨.of_always (.subsearch hbelow), .of_always (.subsearch hbelow)⟩

/-! ## Whole queries -/

section Queries

variable {below : Option Inner}

theorem keepsFaults_of_alike {p : Parser Unit} (hbelow : ∀ inner ∈ below, InnerKeepsFaults inner)
    (h : Alike (.same below) true none .nothing false p p) : KeepsFaults p :=
  (h.keepsFaults hbelow).1.always

theorem keepsFaults_searchExpr (hbelow : ∀ inner ∈ below, InnerKeepsFaults inner)
    (stop : Kind → Bool) : KeepsFaults (searchExpr below stop) :=
  .node _ (keepsFaults_of_alike hbelow Alike.searchTerms)

theorem keepsFaults_firstStage (hbelow : ∀ inner ∈ below, InnerKeepsFaults inner) :
    KeepsFaults (firstStage below) := by
  refine KeepsFaultsAt.always
    (.ask rfl (.of_always (keepsFaults_searchExpr hbelow _)) fun k _ => ?_)
  split
  · next h =>
    cases h
    have hcommand (w : CommandWord) :
        Alike (.same below) true none (.here (.command w)) true (command below w)
          (command below w) :=
      Alike.command w
    refine .askSecond rfl ((hcommand _).keepsFaults hbelow).1 fun l _ => ?_
    split
    · exact .of_always (keepsFaults_searchExpr hbelow _)
    · exact ((hcommand _).narrow.keepsFaults hbelow).1
  · exact .of_always (keepsFaults_searchExpr hbelow _)

theorem keepsFaults_nextStage (hbelow : ∀ inner ∈ below, InnerKeepsFaults inner) (nested : Bool) :
    KeepsFaults (nextStage below nested) := by
  refine KeepsFaults.current.bind fun k => ?_
  unfold nextStageAt
  split
  · exact .pure _
  · exact .ite (.pure _) (.bind (.bind (.report _) fun _ => .bumpAsError) fun _ => .pure _)
  · exact .bind .bump fun _ => .bind (keepsFaults_of_alike hbelow Alike.stage) fun _ => .pure _
  · exact .bind .currentText fun w => .bind (.recover _ _) fun _ => .pure _

theorem keepsFaults_stages (hbelow : ∀ inner ∈ below, InnerKeepsFaults inner) (nested : Bool) :
    KeepsFaults (stages below nested) := .whileTrue (keepsFaults_nextStage hbelow nested)

theorem keepsFaults_allStages (hbelow : ∀ inner ∈ below, InnerKeepsFaults inner) (nested : Bool) :
    KeepsFaults (allStages below nested) := by
  refine KeepsFaults.atStageEnd.bind fun b => ?_
  cases b with
  | true => exact keepsFaults_stages hbelow nested
  | false => exact (keepsFaults_firstStage hbelow).bind fun _ => keepsFaults_stages hbelow nested

theorem keepsFaults_pipeline (hbelow : ∀ inner ∈ below, InnerKeepsFaults inner) (nested : Bool) :
    KeepsFaults (pipeline below nested) := .node _ (keepsFaults_allStages hbelow nested)

/-- At every depth what is nested keeps faults. -/
theorem innerKeepsFaults_belowAt (n : Nat) : ∀ inner ∈ belowAt n, InnerKeepsFaults inner := by
  induction n with
  | zero =>
    intro inner h
    cases h
  | succ n ih =>
    intro inner h
    cases h
    refine ⟨keepsFaults_pipeline ih true, fun body hbody => ?_⟩
    cases hbody with
    | searchNot stop => exact keepsFaults_of_alike ih Alike.searchNot
    | searchTerms => exact keepsFaults_of_alike ih Alike.searchTerms
    | expression least => exact keepsFaults_of_alike ih (Alike.operators least)

end Queries

/-- Trivia before the stages may be passed over first. -/
theorem allStages_skipTrivia (below : Option Inner) (nested : Bool) (s : State) :
    allStages below nested s.skipTrivia = allStages below nested s := by
  change (fun r : Option Kind × State => (if r.1.all _ = true then stages below nested
      else firstStage below >>= fun _ => stages below nested) r.2) (current s.skipTrivia) = _
  rw [current_skipTrivia]
  rfl

end Grammar

namespace Parse

open State SplQuery.Parser

/-- A parse is the parse of its stages, which are put under the nodes of the pipeline and of the
whole, and of the trivia after them. -/
theorem finalState_eq (lexemes : List Lexeme) (stop limit : Nat) :
    finalState lexemes stop limit =
      (((Grammar.allStages (Grammar.belowAt limit) false (start lexemes stop)).2.closeNode
        .pipeline []).skipTrivia.drain.closeNode .root []).skipTrivia.drain := rfl

/-- The parse of the stages of a text comes to no fault. -/
theorem fault_allStages {lexemes : List Lexeme} {stop limit : Nat}
    (h : (finalState lexemes stop limit).fault = none) :
    (Grammar.allStages (Grammar.belowAt limit) false (start lexemes stop)).2.fault = none := h

end Parse

end SplQuery
