import SplQuery.Proofs.Fair.State
import SplQuery.Proofs.Made.Faults
import SplQuery.Proofs.Steps.Recovery

/-!
# Productions keep states fair

Every production leads from a fair state to a fair one, and what it reports and reads stays. This is
shown here for each way of putting steps together.

* `Peeked` — a look ahead past trivia.
* `Keeps` — a step that keeps states fair.
* `Keeps.descend`, `Keeps.recover`, … — each way of putting steps together gives such a step.
-/

namespace SplQuery

open State

/-! ## Looks ahead -/

namespace State

/-- To a state in which trivia has been passed over, and nothing else. -/
structure Peeked (s t : State) : Prop where
  built : t.built = s.built
  held : t.held = s.skipTrivia.held
  rest : t.rest = s.skipTrivia.rest
  notes : t.notes = s.notes

variable {whole : Bool} {start : Nat} {s t u : State}

theorem peeked_skipTrivia (s : State) : Peeked s s.skipTrivia := ⟨rfl, rfl, rfl, rfl⟩

theorem Peeked.look (h : Peeked s t) : Peeked s t.look :=
  ⟨(look_built t).trans h.built, (look_held t).trans h.held, (look_rest t).trans h.rest,
    (notes_look t).trans h.notes⟩

theorem Peeked.reports (h : Peeked s t) : t.reports = s.reports := congrArg Notes.reports h.notes

theorem Peeked.ready (h : Peeked s t) : t.Ready := (ready_skipTrivia s).of_rest h.rest

theorem Peeked.next? (h : Peeked s t) : t.next? = s.next? :=
  (next?_of_rest h.rest).trans (next?_skipTrivia s)

theorem peeked_current (s : State) : Peeked s (Parser.current s).2 := by
  rw [Parser.current_eq]
  exact (peeked_skipTrivia s).look

theorem Peeked.current (h : Peeked s t) : Peeked s (Parser.current t).2 := by
  rw [Parser.current_eq, h.ready.skipTrivia]
  exact h.look

/-- The question for the next lexeme is a look ahead. -/
theorem ends_current (s : State) :
    Parser.Ends Parser.current s fun k t => Peeked s t ∧ k = s.next? := by
  rw [Parser.Ends, Parser.current_eq]
  exact ⟨(peeked_skipTrivia s).look, rfl⟩

theorem Peeked.drain_built (h : Peeked s t) (hready : s.Ready) : t.drain.built = s.drain.built := by
  have hheld : t.held = s.held := by rw [h.held, hready.skipTrivia]
  rw [State.drain, State.drain, hheld, h.built]

theorem Peeked.here (h : Peeked s t) {k : Kind} (hnext : s.next? = some k) :
    (Sight.here k).Holds t :=
  ⟨h.ready, h.next?.trans hnext⟩

theorem Peeked.fair (h : Peeked s t) (hs : s.Fair whole start) : t.Fair whole start :=
  hs.skipTrivia.congr h.built h.held h.rest h.reports
    (congrArg Notes.lastReport h.notes) (congrArg Notes.openers h.notes)
    (congrArg Notes.stop h.notes)

theorem Peeked.kept (h : Peeked s t) (hs : s.Fair whole start) : Kept whole start false s t :=
  (h.fair hs).kept h.built h.reports

end State

namespace Parser

theorem atStageEnd_eq (s : State) : atStageEnd s = (s.atEnd, s.skipTrivia.look) := by
  change ((current s).1.all _, (current s).2) = _
  rw [current_eq]
  rfl

theorem bumpAsError_eq {s : State} (h : s.rest ≠ []) : bumpAsError s = single .error s := by
  change (if s.rest.isEmpty = true then (Pure.pure () : Parser Unit) else single .error) s = _
  rw [List.isEmpty_eq_false_iff.mpr h]
  rfl

theorem recover_eq (kind : DiagnosticKind) (detail : String) (s : State) :
    recover kind detail s = if s.atEnd = true then reportWith kind detail s.skipTrivia.look
      else
        node .error (reportWith kind detail >>= fun _ => skipBalanced true) s.skipTrivia.look := by
  change (if (atStageEnd s).1 = true then reportWith kind detail
    else node .error (reportWith kind detail >>= fun _ => skipBalanced true)) (atStageEnd s).2 = _
  rw [atStageEnd_eq]
  split <;> rfl

end Parser

/-! ## Steps -/

/-- From a fair state in which there is to be seen what is known, the step leads to a fair one. -/
def Keeps (sight : Sight) (reads : Bool) {α : Type} (p : Parser α) : Prop :=
  ∀ (whole : Bool) (start : Nat) (s : State), s.Fair whole start → sight.Holds s →
    Kept whole start reads s (p s).2

namespace Keeps

open SplQuery.Parser

variable {sight : Sight} {reads reads' : Bool} {k : Kind} {α β σ : Type} {p : Parser α}

theorem blind (h : Keeps .nothing reads p) : Keeps sight reads p :=
  fun whole start s hs _ => h whole start s hs trivial

theorem narrow {l : Kind} (h : Keeps (.here k) reads p) : Keeps (.pair k l) reads p :=
  fun whole start s hs hsight => h whole start s hs ⟨hsight.1, hsight.2.1⟩

theorem forget (h : Keeps sight reads p) : Keeps sight false p :=
  fun whole start s hs hsight => (h whole start s hs hsight).forget

/-- A step that changes neither trees nor reports. -/
theorem of_same (h : ∀ (whole : Bool) (start : Nat) (s : State), s.Fair whole start →
    (p s).2.Fair whole start) (hbuilt : ∀ s, (p s).2.built = s.built)
    (hreports : ∀ s, (p s).2.reports = s.reports) : Keeps sight false p :=
  fun whole start s hs _ => (h whole start s hs).kept (hbuilt s) (hreports s)

theorem of_peeked (h : ∀ s, Peeked s (p s).2) : Keeps sight false p :=
  fun _ _ s hs _ => (h s).kept hs

theorem pure (a : α) : Keeps sight false (Pure.pure a) :=
  of_same (fun _ _ _ h => h) (fun _ => rfl) fun _ => rfl

/-- A step, after which something is seen. -/
theorem step {f : α → Parser β} (hp : Keeps sight reads p)
    (hf : ∀ s, sight.Holds s → ∃ after : Sight, after.Holds (p s).2 ∧
      Keeps after reads' (f (p s).1)) :
    Keeps sight (reads || reads') (p >>= f) := by
  intro whole start s hs hsight
  obtain ⟨after, hafter, hkeeps⟩ := hf s hsight
  have hkept := hp whole start s hs hsight
  exact hkept.trans (hkeeps whole start _ hkept.fair hafter)

theorem bind {f : α → Parser β} (hp : Keeps sight reads p) (hf : ∀ a, Keeps .nothing reads' (f a)) :
    Keeps sight (reads || reads') (p >>= f) :=
  step hp fun _ _ => ⟨.nothing, trivial, hf _⟩

/-- A step that need not read, after which something is seen. -/
theorem peek {f : α → Parser β} (hp : Keeps sight false p)
    (hf : ∀ s, sight.Holds s → ∃ after : Sight, after.Holds (p s).2 ∧
      Keeps after reads (f (p s).1)) :
    Keeps sight reads (p >>= f) := by
  have hboth := step hp hf
  rwa [Bool.false_or] at hboth

/-- A step after which nothing need be read. -/
theorem andAfter {f : α → Parser β} (hp : Keeps sight reads p)
    (hf : ∀ a, Keeps .nothing false (f a)) : Keeps sight reads (p >>= f) := by
  have hboth := bind hp hf
  rwa [Bool.or_false] at hboth

theorem ite {c : Prop} [Decidable c] {p q : Parser α} (hp : Keeps sight reads p)
    (hq : Keeps sight reads q) : Keeps sight reads (if c then p else q) := by
  split
  · exact hp
  · exact hq

theorem refresh : Keeps sight false (modify State.refresh : Parser Unit) :=
  of_same (fun _ _ _ h => h.congr rfl rfl rfl rfl rfl rfl rfl) (fun _ => rfl) fun _ => rfl

theorem withFault (f : Fault) : Keeps sight false (modify (·.withFault f) : Parser Unit) :=
  of_same (fun _ _ _ h => h.withFault f) (fun _ => rfl) fun _ => rfl

/-! ## Looking ahead -/

section Questions

variable {f : Option Kind → Parser β}

theorem current : Keeps sight false Parser.current := of_peeked peeked_current

theorem ahead : Keeps sight false Parser.ahead := of_peeked peeked_skipTrivia

theorem currentText : Keeps sight false Parser.currentText := of_peeked peeked_skipTrivia

theorem ask (hf : f none = f (some .pipe)) (hnone : Keeps .nothing reads (f none))
    (hsome : ∀ k, k ≠ .pipe → Keeps (.here k) reads (f (some k))) :
    Keeps .nothing reads (Parser.current >>= f) :=
  peek current fun s _ => current_sees (P := (Keeps · reads ·)) hf hnone hsome s

theorem look (hsight : sight.past.first? = some k) (h : Keeps sight.past reads (f (some k))) :
    Keeps sight reads (Parser.current >>= f) :=
  peek current fun _ hs => current_shows (P := (Keeps · reads ·)) hsight h hs

theorem askSecond (hf : f none = f (some .pipe)) (hnone : Keeps (.here k) reads (f none))
    (hsome : ∀ l, l ≠ .pipe → Keeps (.pair k l) reads (f (some l))) :
    Keeps (.here k) reads (Parser.ahead >>= f) :=
  peek ahead fun _ hs => ahead_sees (P := (Keeps · reads ·)) hf hnone hsome hs

theorem touching {a : β} (hf : f (some .pipe) = Pure.pure a)
    (h : ∀ k, k ≠ .pipe → Keeps (.here k) false (f (some k))) :
    Keeps .nothing false
      (glued >>= fun b => if b = true then adjacent >>= f else Pure.pure a) := by
  intro whole start s hs _
  obtain ⟨after, p, t, ht, hafter, hp, heq⟩ :=
    touching_sees (P := (Keeps · false ·)) hf (pure a) h s
  rw [heq]
  have hkept : Kept whole start false s t := by
    rcases ht with rfl | rfl
    · exact hs.kept rfl rfl
    · exact hs.look.kept (look_built s) (look_reports s)
  exact hkept.trans (hp whole start t hkept.fair hafter)

theorem require {member : Kind → Bool} {f : Unit → Parser β} (hsight : sight.first? = some k)
    (hmember : member k = true) (h : Keeps sight reads (f ())) :
    Keeps sight reads (Parser.require member >>= f) := by
  intro whole start s hs hholds
  change Kept whole start reads s (f (Parser.require member s).1 (Parser.require member s).2).2
  rw [require_eq (hholds.ready hsight).2 hmember]
  have hlook := (peeked_skipTrivia s).look
  have hsees : sight.Holds s.skipTrivia.look :=
    (hholds.skipTrivia hsight).of_rest hsight (look_rest _)
  exact (hlook.kept hs).trans (h whole start _ (hlook.fair hs) hsees)

end Questions

/-! ## Reading -/

theorem bump : Keeps sight false Parser.bump := fun _ _ _ hs _ => hs.keptBump

theorem bumpHere (hsight : sight.first? = some k) : Keeps sight true Parser.bump :=
  fun _ _ _ hs hholds => hs.readBump (hholds.ready hsight).1 (hholds.ready hsight).2

theorem bumpThen {f : Unit → Parser β} (hsight : sight.first? = some k)
    (h : Keeps sight.afterBump reads (f ())) : Keeps sight true (Parser.bump >>= f) := by
  have hboth := (bumpHere hsight).step fun _ hs => ⟨sight.afterBump, hs.bump hsight, h⟩
  rwa [Bool.true_or] at hboth

theorem eatTrivia : Keeps sight false Parser.eatTrivia :=
  fun _ _ s hs _ => ((peeked_skipTrivia s).kept hs).trans hs.skipTrivia.keptDrain

/-! ## Nodes -/

theorem node {shape : Shape} (hplain : shape.isPlain = true)
    (hreads : reads = true ∨ shape.isSolid = false) (h : Keeps sight.inside reads p) :
    Keeps sight reads (Parser.node shape p) :=
  fun _ start s hs hholds => hs.closePlain
    (h true (s.place start) (opened s) hs.opened (hholds.inside rfl)) hplain hreads

theorem wrapFrom {p : Parser Unit} {shape : Shape} (mark : Nat) (hshape : shape.isWrapped = true)
    (hreads : reads = true ∨ shape.isSolid = false) (h : Keeps sight.inside reads p) :
    Keeps sight reads (Parser.wrapFrom mark shape p) :=
  fun _ _ s hs hholds => hs.wrap
    (h false _ (cut mark s) (hs.cut mark) (hholds.inside rfl)) hshape hreads

theorem inCommand {p : Parser Unit} (word : Option CommandWord) (h : Keeps sight reads p) :
    Keeps sight reads (Parser.inCommand word p) := by
  intro whole start s hs hholds
  have hinner := h whole start (entered word s) (hs.congr rfl rfl rfl rfl rfl rfl rfl)
    (hholds.congr rfl rfl rfl)
  exact ⟨hinner.fair.congr rfl rfl rfl rfl rfl rfl rfl, hinner.reports, hinner.token⟩

/-! ## Notes -/

theorem report (kind : DiagnosticKind) : Keeps sight false (Parser.report kind) := by
  intro whole start s hs _
  rw [report_eq]
  exact ((peeked_skipTrivia s).kept hs).trans (hs.skipTrivia.toldAt kind none)

theorem reportWith (kind : DiagnosticKind) (detail : String) :
    Keeps sight false (Parser.reportWith kind detail) := by
  intro whole start s hs _
  rw [reportWith_eq]
  exact ((peeked_skipTrivia s).kept hs).trans (hs.skipTrivia.toldAt kind (some detail))

theorem pushOpener (kind : Kind) : Keeps sight false (Parser.pushOpener kind) := by
  intro whole start s hs _
  rw [pushOpener_eq]
  exact ((peeked_skipTrivia s).kept hs).trans (hs.skipTrivia.opener kind)

theorem close (closer : Kind) (kind : DiagnosticKind) :
    Keeps sight false (Parser.close closer kind) := by
  intro whole start s hs _
  rw [close_eq]
  split
  · have hclosed := hs.closed
    have hlook := (peeked_skipTrivia (s.withNotes s.notes.closed)).look.kept hclosed.fair
    exact hclosed.trans (hlook.trans hlook.fair.keptBump)
  · have hunclosed := hs.skipTrivia.unclosed kind
    have hbuilt := look_built (s.withNotes s.notes.closed).skipTrivia
    refine ⟨hunclosed.fair.congr hbuilt (look_held _) (look_rest _) rfl rfl rfl rfl,
      hunclosed.reports, fun htoken => ?_⟩
    rw [State.withNotes, hbuilt]
    exact htoken.resolve_left Bool.false_ne_true

/-! ## Repetition -/

theorem loopFrom {body : σ → Parser (ForInStep σ)} (h : ∀ a, Keeps .nothing false (body a)) :
    ∀ fuel a, Keeps .nothing false (Parser.loopFrom body fuel a) := by
  intro fuel
  induction fuel with
  | zero => exact fun a => (withFault .stuck).andAfter fun _ => pure a
  | succ fuel ih =>
    refine fun a => (h a).andAfter fun step => ?_
    cases step with
    | done b => exact pure b
    | yield b => exact ih b

theorem loop {init : σ} {body : σ → Parser (ForInStep σ)} (hfirst : Keeps sight reads (body init))
    (hothers : ∀ a, Keeps .nothing false (body a)) : Keeps sight reads (Parser.loop init body) := by
  have hround (fuel : Nat) : Keeps sight reads (Parser.loopFrom body (fuel + 1) init) := by
    rw [← Bool.or_false reads]
    refine hfirst.bind fun step => ?_
    cases step with
    | done b => exact pure b
    | yield b => exact loopFrom hothers fuel b
  exact fun whole start s => hround (s.rest.length + 1) whole start s

theorem skipOne (stopAtPipe : Bool) (depth : Nat) :
    Keeps .nothing false (Parser.skipOne stopAtPipe depth) := by
  intro whole start s hs _
  have hlook := (peeked_skipTrivia s).look.kept hs
  cases h : s.next? with
  | none =>
    rw [skipOne_of_none h]
    exact hlook
  | some k =>
    rw [skipOne_of_some h]
    split
    · exact hlook
    · exact hlook.trans hlook.fair.keptBump

theorem skipBalanced (stopAtPipe : Bool) : Keeps .nothing false (Parser.skipBalanced stopAtPipe) :=
  (loop (skipOne stopAtPipe 0) (skipOne stopAtPipe)).andAfter fun _ => pure _

/-! ## Passing over -/

section Errors

variable {whole : Bool} {start : Nat} {s : State}

/-- Where a report was made that was about the lexeme ahead, what is passed over may follow. -/
theorem errorAfter {p : Parser Unit} (hp : Keeps sight.inside reads p)
    (hleads : Leads (opened s) (p (opened s)).2) (hs : s.Fair whole start) (hholds : sight.Holds s)
    (hready : s.Ready) (hreports : s.reports ≠ [])
    (htold : s.rest ≠ [] → Told s.reports (s.place start)) :
    Kept whole start reads s (Parser.node .error p s).2 := by
  have hinner := hp true (s.place start) (opened s) hs.opened (hholds.inside rfl)
  exact hs.closeError hinner hleads hready (hinner.reports_ne hreports) fun hrest =>
    (htold hrest).mono hinner.reports

/-- The lexeme ahead is passed over where the last report was made. -/
theorem singleError (hs : s.Fair whole start) (hholds : (Sight.here k).Holds s)
    (hlast : s.lastReport = some (s.place start)) :
    Kept whole start true s (single .error s).2 := by
  have hrest : (opened s).rest ≠ [] := rest_ne_nil_of_next? hholds.2
  have hleads : Leads (opened s) (opened s).bump := (reads_bump hrest).leads
  exact errorAfter (bumpHere (k := k) rfl) hleads hs hholds hholds.1 (hs.reports_of_last hlast)
    fun hrest => hs.told_of_last hlast (hs.place_lt_stop hrest)

/-- What is reported at the next lexeme, which is then passed over. -/
theorem refused (hs : s.Fair whole start) (hnext : s.next? = some k) (kind : DiagnosticKind)
    (detail : Option String) :
    Kept whole start true s (bumpAsError
      (s.skipTrivia.withNotes (s.notes.toldAt kind s.skipTrivia.span detail))).2 := by
  have hskip := peeked_skipTrivia s
  have hfair := hskip.fair hs
  have htold := hfair.toldAt kind detail
  have hholds : (Sight.here k).Holds (s.skipTrivia.withNotes
      (s.skipTrivia.notes.toldAt kind s.skipTrivia.span detail)) :=
    (hskip.here hnext).of_rest rfl rfl
  refine (hskip.kept hs).trans (htold.trans ?_)
  rw [show s.notes = s.skipTrivia.notes from rfl, bumpAsError_eq (rest_ne_nil_of_next? hholds.2)]
  exact singleError htold.fair hholds (hfair.span.1 ▸ lastReport_told _ _ _ _ _ _)

theorem refuse (hsight : sight.first? = some k) (kind : DiagnosticKind) :
    Keeps sight true (Parser.refuse kind) := by
  intro whole start s hs hholds
  change Kept whole start true s (bumpAsError (Parser.report kind s).2).2
  rw [report_eq]
  exact refused hs (hholds.ready hsight).2 kind none

theorem refuseWith (hsight : sight.first? = some k) (kind : DiagnosticKind) (detail : String) :
    Keeps sight true (Parser.refuseWith kind detail) := by
  intro whole start s hs hholds
  change Kept whole start true s (bumpAsError (Parser.reportWith kind detail s).2).2
  rw [reportWith_eq]
  exact refused hs (hholds.ready hsight).2 kind (some detail)

theorem recover (kind : DiagnosticKind) (detail : String) :
    Keeps sight false (Parser.recover kind detail) := by
  intro whole start s hs _
  have hpeeked := (peeked_skipTrivia s).look
  have hlook := hpeeked.kept hs
  have hreport : Keeps .nothing false (Parser.reportWith kind detail) := reportWith kind detail
  rw [recover_eq]
  split
  · exact hlook.trans (hreport whole start _ hlook.fair trivial)
  · refine hlook.trans ?_
    have hready := hpeeked.ready
    generalize s.skipTrivia.look = t at hlook hready ⊢
    have hfair := hlook.fair
    have hskip : Keeps .nothing false (Parser.skipBalanced true) := skipBalanced true
    have hleads := (reportWith_ends kind detail (opened t)).passes.leads
    have hreported := hreport true (t.place start) (opened t) hfair.opened trivial
    have hlast :
        (Parser.reportWith kind detail (opened t)).2.lastReport = some (t.place start) := by
      rw [reportWith_eq, (ready_opened hready).skipTrivia, ← hfair.span.1]
      exact lastReport_told _ _ _ _ _ _
    have hskipped := hskip true (t.place start) _ hreported.fair trivial
    refine hfair.closeError (hreported.trans hskipped)
      (hleads.trans (skipBalanced_ends true _).1.leads) hready
      (hskipped.reports_ne (hreported.fair.reports_of_last hlast)) fun hrest => ?_
    refine (hreported.fair.told_of_last hlast ?_).mono hskipped.reports
    exact Nat.lt_of_lt_of_eq (hfair.place_lt_stop hrest) hleads.stop.symm

theorem descend_none (stopAtPipe : Bool) (body : Inner → Parser Unit) :
    Keeps sight false (Parser.descend none stopAtPipe body) := by
  intro whole start s hs _
  have hskip := peeked_skipTrivia s
  obtain ⟨htold, hreports, hplace⟩ := (hskip.fair hs).tooDeep
  rw [Parser.descend_none]
  refine (hskip.kept hs).trans (htold.trans ?_)
  have hskips : Keeps Sight.nothing.inside false (Parser.skipBalanced stopAtPipe) :=
    skipBalanced stopAtPipe
  exact errorAfter hskips (skipBalanced_ends stopAtPipe _).1.leads htold.fair trivial
    (hskip.ready.of_rest rfl) hreports
    hplace

/-- One level further down. -/
theorem descend {inner : Inner} {body : Inner → Parser Unit} (stopAtPipe : Bool)
    (h : Keeps sight reads (body inner)) :
    Keeps sight reads (Parser.descend (some inner) stopAtPipe body) := by
  intro whole start s hs hholds
  have hrefresh : Keeps .nothing false (modify State.refresh : Parser Unit) := refresh
  have hbefore := hrefresh whole start s hs trivial
  have hbody := h whole start s.refresh hbefore.fair (hholds.congr rfl rfl rfl)
  have hafter := hrefresh whole start _ hbody.fair trivial
  have hkept := hbefore.trans (hbody.trans hafter)
  rwa [Bool.false_or, Bool.or_false] at hkept

end Errors

end Keeps

end SplQuery
