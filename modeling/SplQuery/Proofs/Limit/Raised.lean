import SplQuery.Proofs.Made.Faults
import SplQuery.Proofs.Made.Notes
import SplQuery.Query.Parse

/-!
# Raising the limit

Two parses of one query to different depths go on in the same way until one of them comes to its
limit, and there something is noted. It may be that this is not noted at once, because something was
noted at the same place before, or because the limit was noted before; but then something has been
noted all the same. So a parse in which nothing was found wrong is not changed by a higher limit.

* `State.Loud`, `State.Quiet` — something or nothing has been found wrong.
* `Agree` — unless the one step finds something wrong, the other does the same.
* `Grammar.Alike.agree` — programs that are made in the same way.
* `parseQuery_raised` — what is parsed without a diagnostic is parsed to the same at a higher limit.
-/

namespace SplQuery

namespace State

/-- Something has been found wrong. -/
def Loud (s : State) : Prop := s.reports ≠ []

/-- Nothing has been found wrong, and so no report can be left out. -/
structure Quiet (s : State) : Prop where
  reports : s.reports = []
  lastReport : s.lastReport = none

/-- Reports stay, and nothing but a report makes a later one be left out. -/
structure Settles (s t : State) : Prop where
  loud : s.Loud → t.Loud
  quiet : s.Quiet → t.Loud ∨ t.Quiet

variable {s t u : State}

theorem Settles.trans (h : s.Settles t) (h' : t.Settles u) : s.Settles u :=
  ⟨fun hs => h'.loud (h.loud hs),
    fun hs => (h.quiet hs).elim (fun ht => .inl (h'.loud ht)) h'.quiet⟩

theorem Settles.of_same (hreports : t.reports = s.reports) (hlast : t.lastReport = s.lastReport) :
    s.Settles t := by
  refine ⟨fun h => ?_, fun h => .inr ⟨hreports.trans h.reports, hlast.trans h.lastReport⟩⟩
  rw [Loud, hreports]
  exact h

/-- What is told is noted, unless something has been told before. -/
theorem Settles.of_told {place : Nat} {kind : DiagnosticKind} {span : Span} {message : String}
    {related : List Related} (h : t.notes = s.notes.told place kind span message related) :
    s.Settles t := by
  have hreports : t.reports = (s.notes.told place kind span message related).reports :=
    congrArg Notes.reports h
  have hlast : t.lastReport = (s.notes.told place kind span message related).lastReport :=
    congrArg Notes.lastReport h
  rw [Notes.told] at hreports hlast
  split at hreports
  case isTrue hsame =>
    rw [if_pos hsame] at hlast
    exact .of_same hreports hlast
  case isFalse hnew =>
    have hloud : t.Loud := by
      rw [Loud, hreports]
      exact List.cons_ne_nil _ _
    exact ⟨fun _ => hloud, fun _ => .inl hloud⟩

/-- Where nothing has been found wrong, what is told is noted. -/
theorem Quiet.loud_of_told {place : Nat} {kind : DiagnosticKind} {span : Span} {message : String}
    {related : List Related} (hs : s.Quiet)
    (h : t.notes = s.notes.told place kind span message related) : t.Loud := by
  have hlast : s.notes.lastReport = none := hs.lastReport
  have hreports : t.reports = (s.notes.told place kind span message related).reports :=
    congrArg Notes.reports h
  rw [Notes.told, hlast, if_neg (by simp)] at hreports
  rw [Loud, hreports]
  exact List.cons_ne_nil _ _

end State

open State

/-- Where they start with what is to be seen, reports stay, and unless the one step finds something
wrong the other does the same. -/
structure Agree (sight : Sight) {α : Type} (p q : Parser α) : Prop where
  loud : ∀ s, sight.Holds s → s.Loud → (p s).2.Loud
  quiet : ∀ s, sight.Holds s → s.Quiet → (p s).2.Loud ∨ (p s).2.Quiet ∧ q s = p s

namespace Agree

open SplQuery.Parser

variable {sight : Sight} {k : Kind} {α β σ : Type} {p q : Parser α}

theorem self (h : ∀ s : State, s.Settles (p s).2) : Agree sight p p :=
  ⟨fun s _ => (h s).loud, fun s _ hs => ((h s).quiet hs).imp_right fun hquiet => ⟨hquiet, rfl⟩⟩

/-- A step that notes nothing. -/
theorem of_notes (h : ∀ s, (p s).2.notes = s.notes) : Agree sight p p :=
  self fun s => .of_same (congrArg Notes.reports (h s)) (congrArg Notes.lastReport (h s))

theorem blind (h : Agree .nothing p q) : Agree sight p q :=
  ⟨fun s _ => h.loud s trivial, fun s _ => h.quiet s trivial⟩

theorem narrow {l : Kind} (h : Agree (.here k) p q) : Agree (.pair k l) p q :=
  ⟨fun s hs => h.loud s ⟨hs.1, hs.2.1⟩, fun s hs => h.quiet s ⟨hs.1, hs.2.1⟩⟩

theorem pure (a : α) : Agree sight (Pure.pure a) (Pure.pure a) := of_notes fun _ => rfl

theorem bind {f g : α → Parser β} (h : Agree sight p q) (hf : ∀ a, Agree .nothing (f a) (g a)) :
    Agree sight (p >>= f) (q >>= g) := by
  refine ⟨fun s hsight hs => (hf _).loud _ trivial (h.loud s hsight hs), fun s hsight hs => ?_⟩
  rcases h.quiet s hsight hs with hloud | ⟨hquiet, hsame⟩
  · exact .inl ((hf _).loud _ trivial hloud)
  · change (f (p s).1 (p s).2).2.Loud ∨
      (f (p s).1 (p s).2).2.Quiet ∧ g (q s).1 (q s).2 = f (p s).1 (p s).2
    rw [hsame]
    exact (hf _).quiet _ trivial hquiet

/-- A step that both take, after which something is seen. -/
theorem step {f g : α → Parser β} (h : ∀ s : State, s.Settles (p s).2)
    (hf : ∀ s, sight.Holds s → ∃ after : Sight,
      after.Holds (p s).2 ∧ Agree after (f (p s).1) (g (p s).1)) :
    Agree sight (p >>= f) (p >>= g) := by
  refine ⟨fun s hsight hs => ?_, fun s hsight hs => ?_⟩ <;>
    obtain ⟨after, hafter, hagree⟩ := hf s hsight
  · exact hagree.loud _ hafter ((h s).loud hs)
  · exact ((h s).quiet hs).elim (fun hloud => .inl (hagree.loud _ hafter hloud))
      (hagree.quiet _ hafter)

theorem ite {c : Prop} [Decidable c] {p' q' : Parser α} (h : Agree sight p p')
    (h' : Agree sight q q') : Agree sight (if c then p else q) (if c then p' else q') := by
  split
  · exact h
  · exact h'

/-! ## Looking ahead -/

section Questions

variable {f g : Option Kind → Parser β}

theorem settles_current (s : State) : s.Settles (Parser.current s).2 := by
  rw [current_eq]
  exact .of_same (congrArg Notes.reports (notes_look _)) (congrArg Notes.lastReport (notes_look _))

theorem current : Agree sight Parser.current Parser.current := self settles_current

theorem ask (hf : f none = f (some .pipe)) (hg : g none = g (some .pipe))
    (hnone : Agree .nothing (f none) (g none))
    (hsome : ∀ k, k ≠ .pipe → Agree (.here k) (f (some k)) (g (some k))) :
    Agree .nothing (Parser.current >>= f) (Parser.current >>= g) :=
  step settles_current fun s _ =>
    current_sees (f := fun k => (f k, g k)) (P := fun after pq => Agree after pq.1 pq.2)
      (Prod.ext hf hg) hnone hsome s

theorem look (hsight : sight.past.first? = some k)
    (h : Agree sight.past (f (some k)) (g (some k))) :
    Agree sight (Parser.current >>= f) (Parser.current >>= g) :=
  step settles_current fun _ hs =>
    current_shows (f := fun k => (f k, g k)) (P := fun after pq => Agree after pq.1 pq.2)
      hsight h hs

theorem askSecond (hf : f none = f (some .pipe)) (hg : g none = g (some .pipe))
    (hnone : Agree (.here k) (f none) (g none))
    (hsome : ∀ l, l ≠ .pipe → Agree (.pair k l) (f (some l)) (g (some l))) :
    Agree (.here k) (ahead >>= f) (ahead >>= g) :=
  step (fun _ => .of_same rfl rfl) fun _ hs =>
    ahead_sees (f := fun l => (f l, g l)) (P := fun after pq => Agree after pq.1 pq.2)
      (Prod.ext hf hg) hnone hsome hs

theorem touching {a : β} (hf : f (some .pipe) = Pure.pure a) (hg : g (some .pipe) = Pure.pure a)
    (h : ∀ k, k ≠ .pipe → Agree (.here k) (f (some k)) (g (some k))) :
    Agree .nothing (glued >>= fun b => if b = true then adjacent >>= f else Pure.pure a)
      (glued >>= fun b => if b = true then adjacent >>= g else Pure.pure a) := by
  refine step (fun s => .of_same rfl rfl) fun s _ => ?_
  change ∃ after : Sight, after.Holds s ∧
    Agree after (if s.rest.head?.any (!·.isTrivia) = true then adjacent >>= f else Pure.pure a)
      (if s.rest.head?.any (!·.isTrivia) = true then adjacent >>= g else Pure.pure a)
  split
  case isFalse => exact ⟨.nothing, trivial, pure a⟩
  case isTrue hglued =>
    cases hrest : s.rest with
    | nil =>
      rw [hrest] at hglued
      cases hglued
    | cons l ls =>
      have hl : l.isTrivia = false := by simpa [hrest] using hglued
      refine ⟨.here l.kind, .here_of_rest hrest hl, step (fun s => ?_) fun t ht => ?_⟩
      · rw [adjacent_eq]
        exact .of_same (congrArg Notes.reports (notes_look _))
          (congrArg Notes.lastReport (notes_look _))
      · obtain ⟨m, ms, hm, hkind, -⟩ := ht.1.rest_of_next? ht.2
        rw [adjacent_eq, hm, List.head?_cons, Option.map_some, hkind]
        by_cases hk : l.kind = .pipe
        · rw [hk, hf, hg]
          exact ⟨.nothing, trivial, pure a⟩
        · exact ⟨.here l.kind, ht.of_rest rfl (look_rest _), h _ hk⟩

end Questions

/-! ## Reading -/

theorem settles_bump (s : State) : s.Settles s.bump :=
  .of_same (congrArg Notes.reports (notes_bump s)) (congrArg Notes.lastReport (notes_bump s))

theorem bump : Agree sight Parser.bump Parser.bump := self settles_bump

theorem bumpThen {f g : Unit → Parser β} (hsight : sight.first? = some k)
    (h : Agree sight.afterBump (f ()) (g ())) :
    Agree sight (Parser.bump >>= f) (Parser.bump >>= g) :=
  step settles_bump fun _ hs => ⟨sight.afterBump, hs.bump hsight, h⟩

theorem node (shape : Shape) (h : Agree sight.inside p q) :
    Agree sight (Parser.node shape p) (Parser.node shape q) := by
  have hinside {s : State} (hs : sight.Holds s) : sight.inside.Holds (opened s) := hs.inside rfl
  refine ⟨fun s hsight => h.loud (opened s) (hinside hsight), fun s hsight hs => ?_⟩
  have hopened : (opened s).Quiet := ⟨hs.reports, hs.lastReport⟩
  refine (h.quiet (opened s) (hinside hsight) hopened).imp id fun ⟨hquiet, hsame⟩ => ?_
  refine ⟨⟨hquiet.reports, hquiet.lastReport⟩, ?_⟩
  change ((q (opened s)).1, (q (opened s)).2.closeNode shape s.drain.built) = _
  rw [hsame]
  rfl

theorem wrapFrom {p q : Parser Unit} (place : Nat) (shape : Shape) (h : Agree sight.inside p q) :
    Agree sight (Parser.wrapFrom place shape p) (Parser.wrapFrom place shape q) := by
  have hinside {s : State} (hs : sight.Holds s) : sight.inside.Holds (cut place s) := hs.inside rfl
  refine ⟨fun s hsight => h.loud (cut place s) (hinside hsight), fun s hsight hs => ?_⟩
  have hcut : (cut place s).Quiet := ⟨hs.reports, hs.lastReport⟩
  refine (h.quiet (cut place s) (hinside hsight) hcut).imp id fun ⟨hquiet, hsame⟩ => ?_
  refine ⟨⟨hquiet.reports, hquiet.lastReport⟩, ?_⟩
  change ((), (q (cut place s)).2.closeNode shape (s.built.drop (sinceMark place s))) = _
  rw [hsame]
  rfl

theorem inCommand {p q : Parser Unit} (word : Option CommandWord) (h : Agree sight p q) :
    Agree sight (Parser.inCommand word p) (Parser.inCommand word q) := by
  have hinside {s : State} (hs : sight.Holds s) : sight.Holds (entered word s) :=
    hs.congr rfl rfl rfl
  refine ⟨fun s hsight => h.loud (entered word s) (hinside hsight), fun s hsight hs => ?_⟩
  have hentered : (entered word s).Quiet := ⟨hs.reports, hs.lastReport⟩
  refine (h.quiet (entered word s) (hinside hsight) hentered).imp id fun ⟨hquiet, hsame⟩ => ?_
  refine ⟨⟨hquiet.reports, hquiet.lastReport⟩, ?_⟩
  change ((), left (q (entered word s)).2) = _
  rw [hsame]
  rfl

/-! ## Steps that both take -/

theorem settles (h : Agree .nothing p p) (s : State) : s.Settles (p s).2 :=
  ⟨h.loud s trivial, fun hs => (h.quiet s trivial hs).imp_right And.left⟩

theorem atStageEnd : Agree sight Parser.atStageEnd Parser.atStageEnd :=
  current.bind fun _ => pure _

theorem require (member : Kind → Bool) :
    Agree sight (Parser.require member) (Parser.require member) :=
  (current.bind fun _ => pure _).bind fun _ => ite (pure _) (of_notes fun _ => rfl)

theorem report (kind : DiagnosticKind) : Agree sight (Parser.report kind) (Parser.report kind) :=
  self fun s => .of_told (congrArg (·.2.notes) (report_eq kind s))

theorem reportWith (kind : DiagnosticKind) (detail : String) :
    Agree sight (Parser.reportWith kind detail) (Parser.reportWith kind detail) :=
  self fun s => .of_told (congrArg (·.2.notes) (reportWith_eq kind detail s))

theorem get : Agree sight get get := of_notes fun _ => rfl

theorem bumpAsError : Agree .nothing Parser.bumpAsError Parser.bumpAsError :=
  get.bind fun _ => ite (pure _) (node _ bump)

theorem refuse (kind : DiagnosticKind) : Agree sight (Parser.refuse kind) (Parser.refuse kind) :=
  (report kind).bind fun _ => bumpAsError

theorem refuseWith (kind : DiagnosticKind) (detail : String) :
    Agree sight (Parser.refuseWith kind detail) (Parser.refuseWith kind detail) :=
  (reportWith kind detail).bind fun _ => bumpAsError

theorem close (closer : Kind) (kind : DiagnosticKind) :
    Agree sight (Parser.close closer kind) (Parser.close closer kind) := by
  refine self fun s => ?_
  rw [close_eq]
  split
  · have hnotes : ((s.withNotes s.notes.closed).skipTrivia.look.bump).notes = s.notes.closed := by
      rw [notes_bump, notes_look]
      rfl
    exact .of_same (congrArg Notes.reports hnotes) (congrArg Notes.lastReport hnotes)
  · rw [Notes.unclosed]
    cases s.notes.openers.head? with
    | none => exact .of_same rfl rfl
    | some o =>
      have hclosed : s.Settles (s.withNotes s.notes.closed) := .of_same rfl rfl
      exact hclosed.trans (.of_told rfl)

/-! ## Repetition -/

theorem loopFrom {body body' : σ → Parser (ForInStep σ)}
    (h : ∀ a, Agree .nothing (body a) (body' a)) :
    ∀ fuel a, Agree .nothing (Parser.loopFrom body fuel a) (Parser.loopFrom body' fuel a) := by
  intro fuel
  induction fuel with
  | zero => exact fun a => of_notes fun _ => rfl
  | succ fuel ih =>
    refine fun a => (h a).bind fun step => ?_
    cases step with
    | done b => exact pure b
    | yield b => exact ih b

theorem loop {init : σ} {body body' : σ → Parser (ForInStep σ)}
    (hfirst : Agree sight (body init) (body' init))
    (hothers : ∀ a, Agree .nothing (body a) (body' a)) :
    Agree sight (Parser.loop init body) (Parser.loop init body') := by
  have hround (fuel : Nat) : Agree sight (Parser.loopFrom body (fuel + 1) init)
      (Parser.loopFrom body' (fuel + 1) init) := by
    refine hfirst.bind fun step => ?_
    cases step with
    | done b => exact pure b
    | yield b => exact loopFrom hothers fuel b
  exact ⟨fun s => (hround (s.rest.length + 1)).loud s,
    fun s => (hround (s.rest.length + 1)).quiet s⟩

theorem whileTrue {body body' : Parser Bool} (h : Agree .nothing body body') :
    Agree .nothing (Parser.whileTrue body) (Parser.whileTrue body') :=
  loop (h.bind fun _ => pure _) fun _ => h.bind fun _ => pure _

theorem skipOne (stopAtPipe : Bool) (depth : Nat) :
    Agree .nothing (Parser.skipOne stopAtPipe depth) (Parser.skipOne stopAtPipe depth) := by
  refine of_notes fun s => ?_
  cases h : s.next? with
  | none =>
    rw [skipOne_of_none h]
    exact notes_look _
  | some k =>
    rw [skipOne_of_some h]
    split
    · exact notes_look _
    · exact (notes_bump _).trans (notes_look _)

theorem skipBalanced (stopAtPipe : Bool) :
    Agree .nothing (Parser.skipBalanced stopAtPipe) (Parser.skipBalanced stopAtPipe) :=
  (loop (skipOne stopAtPipe 0) (skipOne stopAtPipe)).bind fun _ => pure _

theorem recover (kind : DiagnosticKind) (detail : String) :
    Agree sight (Parser.recover kind detail) (Parser.recover kind detail) :=
  atStageEnd.bind fun _ => ite (reportWith _ _)
    (node _ ((reportWith _ _).bind fun _ => skipBalanced _))

/-! ## Nesting -/

/-- One level further down in both. -/
theorem descend {inner inner' : Inner} {body body' : Inner → Parser Unit} (stopAtPipe : Bool)
    (h : Agree .nothing (body inner) (body' inner')) :
    Agree sight (Parser.descend (some inner) stopAtPipe body)
      (Parser.descend (some inner') stopAtPipe body') := by
  have hrefresh {sight : Sight} :
      Agree sight (modify State.refresh : Parser Unit) (modify State.refresh) :=
    of_notes fun _ => rfl
  exact hrefresh.bind fun _ => h.bind fun _ => hrefresh

/-- At the limit something is found wrong, if nothing has been before. -/
theorem descend_none {q : Parser Unit} (stopAtPipe : Bool) (body : Inner → Parser Unit) :
    Agree sight (Parser.descend none stopAtPipe body) q := by
  have herror : Agree .nothing (Parser.node .error (Parser.skipBalanced stopAtPipe))
      (Parser.node .error (Parser.skipBalanced stopAtPipe)) := node .error (skipBalanced stopAtPipe)
  have hskip {s : State} (hs : s.Loud) :
      (Parser.node .error (Parser.skipBalanced stopAtPipe) s).2.Loud := herror.loud s trivial hs
  refine ⟨fun s _ hs => ?_, fun s _ hs => .inl ?_⟩
  · rw [Parser.descend_none]
    refine hskip ?_
    rw [Notes.tooDeep]
    split
    · exact hs
    · exact (Settles.of_told (s := s) rfl).loud hs
  · rw [Parser.descend_none]
    refine hskip ?_
    have hreports : s.notes.reports = [] := hs.reports
    rw [Notes.tooDeep, hreports, List.any_nil, if_neg Bool.false_ne_true]
    exact hs.loud_of_told rfl

end Agree

namespace Grammar

open SplQuery.Parser

/-- What may be nested in two programs agrees. -/
structure InnersAgree (both : Inners) : Prop where
  nested : ∀ body, Nestable body →
    Agree .nothing (descend both.left true body) (descend both.right true body)
  pipeline : Agree .nothing (descend both.left false (·.pipeline))
    (descend both.right false (·.pipeline))

variable {both : Inners}

theorem InnersAgree.subsearch (h : InnersAgree both) :
    Agree .nothing (subsearch both.left) (subsearch both.right) :=
  (Agree.require _).bind fun _ => .node _ <| (Agree.self fun _ => .of_same rfl rfl).bind fun _ =>
    Agree.bump.bind fun _ => (Agree.inCommand _ h.pipeline).bind fun _ => .close _ _

/-- A part with another name agrees if such parts do. -/
theorem agree_aliased {k : Kind} {member : Kind → Bool} {part part' : Parser Unit}
    (hmember : member .pipe = false) (h : ∀ k, Agree (.here k) part part') :
    Agree (.here k) (aliased member part) (aliased member part') := by
  have hname : Agree .nothing (otherName member part) (otherName member part') := by
    refine .ask (f := fun k => if k.any member = true then part else _)
      (g := fun k => if k.any member = true then part' else _) ?_ ?_ (.reportWith _ _)
      fun k _ => .ite (h k) (.reportWith _ _)
    all_goals
      rw [Option.any_some, hmember]
      rfl
  have hafter (start : Nat) :
      Agree .nothing (nameAfter start member part) (nameAfter start member part') := by
    have hisAt : Agree .nothing (Parser.isAt (.clause .as)) (Parser.isAt (.clause .as)) :=
      Agree.current.bind fun _ => .pure _
    refine hisAt.bind fun _ => ?_
    split
    · exact .wrapFrom _ _ (Agree.bump.bind fun _ => hname)
    · exact .pure _
  exact .step (fun _ => .of_same rfl rfl) fun s hs =>
    ⟨.here k, hs.past.past_of_rest rfl, (h k).bind fun _ => hafter _⟩

/-- Programs that are made in the same way agree, if they wrap trees from the same marks. -/
theorem Alike.agree {paired : Bool} {marks : Option (Nat × Nat)} {sight : Sight} {reads : Bool}
    {α : Type} {p q : Parser α} (hboth : InnersAgree both)
    (h : Alike both paired marks sight reads p q)
    (hmarks : ∀ m n, marks = some (m, n) → m = n) : Agree sight p q := by
  have hnone : ∀ m n, (none : Option (Nat × Nat)) = some (m, n) → m = n := fun _ _ h => by cases h
  induction h with
  | blind _ ih => exact (ih hmarks).blind
  | narrow _ ih => exact (ih hmarks).narrow
  | forget _ ih => exact ih hmarks
  | pure a => exact .pure a
  | bind _ _ ih ihf => exact (ih hmarks).bind fun a => ihf a hmarks
  | ask hf hg _ _ ihnone ihsome =>
    exact .ask hf hg (ihnone hmarks) fun k hk => ihsome k hk hmarks
  | look hsight _ ih => exact .look hsight (ih hmarks)
  | askSecond hf hg _ _ ihnone ihsome =>
    exact .askSecond hf hg (ihnone hmarks) fun l hl => ihsome l hl hmarks
  | idleSecond hf hg _ ih =>
    exact .step (fun _ => .of_same rfl rfl) fun s _ =>
      ⟨.nothing, trivial, hf (Parser.ahead s).1 ▸ hg (Parser.ahead s).1 ▸ ih hmarks⟩
  | text hsight _ ih =>
    exact .step (fun _ => .of_same rfl rfl) fun s hs => ⟨_, hs.skipTrivia hsight, ih _ hmarks⟩
  | idleText hf hg _ ih =>
    exact .step (fun _ => .of_same rfl rfl) fun s _ =>
      ⟨.nothing, trivial, hf (currentText s).1 ▸ hg (currentText s).1 ▸ ih hmarks⟩
  | touching hf hg _ ih => exact .touching hf hg fun k hk => ih k hk hmarks
  | require hsight hmember _ ih =>
    refine .step (Agree.require _).settles fun s hs => ?_
    rw [require_eq (hs.ready hsight).2 hmember]
    exact ⟨_, (hs.skipTrivia hsight).of_rest hsight (look_rest _), ih hmarks⟩
  | bump hsight _ _ ih => exact .bumpThen hsight (ih hmarks)
  | bumpBlindly _ _ ih => exact Agree.bump.bind fun _ => ih hmarks
  | node _ _ _ ih => exact .node _ (ih hnone)
  | byRecipe _ _ _ ih => exact .node _ (ih hnone)
  | searchNode _ _ _ ih => exact .node _ (ih hnone)
  | mark _ ih =>
    refine .step (fun _ => .of_same rfl rfl) fun s hs =>
      ⟨_, hs.past.past_of_rest rfl, ih _ _ fun m n h => ?_⟩
    cases h
    rfl
  | wrapFrom _ _ _ ih =>
    obtain rfl := hmarks _ _ rfl
    exact .wrapFrom _ _ (ih hnone)
  | aliased _ _ hmember _ _ ih _ => exact agree_aliased hmember fun k => .node _ (ih k hnone)
  | report kind => exact .report kind
  | reportWith kind detail => exact .reportWith kind detail
  | refuse _ kind => exact .refuse kind
  | refuseWith _ kind detail => exact .refuseWith kind detail
  | recover kind detail => exact .recover kind detail
  | pushOpener kind _ ih =>
    exact .step (fun _ => .of_same rfl rfl) fun s hs =>
      ⟨_, hs.past.past_of_rest rfl, ih hmarks⟩
  | close _ kind => exact .close _ kind
  | grouped _ _ _ _ ih => exact ih hmarks
  | balanced _ ih => exact ih hmarks
  | inCommand word _ ih => exact .inCommand word (ih hmarks)
  | loop _ _ ihfirst ihothers => exact .loop (ihfirst hmarks) fun a => ihothers a hmarks
  | descend hbody => exact hboth.nested _ hbody
  | subsearch => exact hboth.subsearch.blind

/-! ## Stages -/

section Stages

theorem agree_of_alike {sight : Sight} {reads : Bool} {p q : Parser Unit} (hboth : InnersAgree both)
    (h : Alike both true none sight reads p q) : Agree sight p q :=
  h.agree hboth fun _ _ hnone => by cases hnone

theorem agree_searchExpr (hboth : InnersAgree both) (stop : Kind → Bool) :
    Agree .nothing (searchExpr both.left stop) (searchExpr both.right stop) :=
  .node _ (agree_of_alike hboth Alike.searchTerms)

theorem agree_firstStage (hboth : InnersAgree both) :
    Agree .nothing (firstStage both.left) (firstStage both.right) := by
  have hsearch {s : Sight} :
      Agree s (searchExpr both.left nowhere) (searchExpr both.right nowhere) :=
    (agree_searchExpr hboth nowhere).blind
  refine .ask rfl rfl hsearch fun k _ => ?_
  split
  · next h =>
    cases h
    have hcommand (w : CommandWord) :
        Agree (.here (.command w)) (command both.left w) (command both.right w) :=
      agree_of_alike hboth (Alike.command w)
    refine .askSecond rfl rfl (hcommand _) fun l _ => ?_
    split
    · exact hsearch
    · exact (hcommand _).narrow
  · exact hsearch

theorem agree_nextStage (hboth : InnersAgree both) (nested : Bool) :
    Agree .nothing (nextStage both.left nested) (nextStage both.right nested) := by
  have hstage : Agree .nothing (stage both.left) (stage both.right) :=
    agree_of_alike hboth Alike.stage
  refine Agree.current.bind fun k => ?_
  unfold nextStageAt
  split
  · exact .pure _
  · exact .ite (.pure _) ((Agree.refuse _).bind fun _ => .pure _)
  · exact Agree.bump.bind fun _ => hstage.bind fun _ => .pure _
  · exact (Agree.of_notes fun _ => rfl).bind fun w => (Agree.recover _ _).bind fun _ => .pure _

theorem agree_allStages (hboth : InnersAgree both) (nested : Bool) :
    Agree .nothing (allStages both.left nested) (allStages both.right nested) := by
  have hstages : Agree .nothing (stages both.left nested) (stages both.right nested) :=
    .whileTrue (agree_nextStage hboth nested)
  refine Agree.atStageEnd.bind fun b => ?_
  cases b with
  | true => exact hstages
  | false => exact (agree_firstStage hboth).bind fun _ => hstages

theorem agree_pipeline (hboth : InnersAgree both) (nested : Bool) :
    Agree .nothing (pipeline both.left nested) (pipeline both.right nested) :=
  .node _ (agree_allStages hboth nested)

end Stages

/-! ## Depth -/

/-- What may be nested to different depths agrees. -/
theorem innersAgree {n m : Nat} (h : n ≤ m) : InnersAgree ⟨belowAt n, belowAt m⟩ := by
  induction n generalizing m with
  | zero => exact ⟨fun body _ => .descend_none _ _, .descend_none _ _⟩
  | succ n ih =>
    obtain ⟨m, rfl⟩ : ∃ i, m = i + 1 := ⟨m - 1, by omega⟩
    have hboth : InnersAgree ⟨belowAt n, belowAt m⟩ := ih (Nat.le_of_succ_le_succ h)
    refine ⟨fun body hbody => ?_, .descend _ (agree_pipeline hboth true)⟩
    cases hbody with
    | searchNot stop => exact .descend _ (agree_of_alike hboth Alike.searchNot)
    | searchTerms => exact .descend _ (agree_of_alike hboth Alike.searchTerms)
    | expression least => exact .descend _ (agree_of_alike hboth (Alike.operators least))

end Grammar

open Grammar

/-- Where nothing was found wrong a higher limit changes nothing. -/
theorem Parse.ofLexemes_raised {lexemes : List Lexeme} {stop limit limit' : Nat}
    (hle : limit ≤ limit') (h : (Parse.ofLexemes lexemes stop limit).diagnostics = []) :
    Parse.ofLexemes lexemes stop limit' = Parse.ofLexemes lexemes stop limit := by
  have hreports : (allStages (belowAt limit) false (start lexemes stop)).2.reports = [] :=
    List.reverse_eq_nil_iff.mp h
  have hagree :=
    (agree_allStages (innersAgree hle) false).quiet (start lexemes stop) trivial ⟨rfl, rfl⟩
  obtain ⟨-, hsame⟩ := hagree.resolve_left fun hloud => hloud hreports
  rw [Parse.ofLexemes, Parse.ofLexemes, Parse.finalState_eq, Parse.finalState_eq, hsame]

/-- **A higher limit does not change a parse without diagnostics**: neither the tree, nor the query
that it stands for, and there are no diagnostics again. -/
theorem parseQuery_raised {text : String} {limit limit' : Nat} (hle : limit ≤ limit')
    (h : (parseTree text limit).diagnostics = []) :
    parseTree text limit' = parseTree text limit ∧
      parseQuery text limit' = parseQuery text limit ∧
      (parseQuery text limit').diagnostics = [] := by
  have hparse : parseTree text limit' = parseTree text limit := Parse.ofLexemes_raised hle h
  have hparse' : Parse.ofLexemes (lex text) text.utf8ByteSize limit' =
      Parse.ofLexemes (lex text) text.utf8ByteSize limit := hparse
  have hquery : parseQuery text limit' = parseQuery text limit := by
    rw [parseQuery, parseQuery, hparse']
  exact ⟨hparse, hquery, hquery ▸ h⟩

/-- With two levels a name in parentheses is read, and more of them change nothing. -/
theorem parseQuery_raised_sample :
    2 ≤ 128 ∧ (parseTree "| where (a)" 2).diagnostics = [] ∧
      parseTree "| where (a)" 128 = parseTree "| where (a)" 2 ∧
      parseQuery "| where (a)" 128 = parseQuery "| where (a)" 2 ∧
      (parseQuery "| where (a)" 128).diagnostics = [] :=
  have hclean : (parseTree "| where (a)" 2).diagnostics = [] := by decide +kernel
  ⟨by decide, hclean, parseQuery_raised (by decide) hclean⟩

end SplQuery
