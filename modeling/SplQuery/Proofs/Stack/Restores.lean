import SplQuery.Proofs.Made.Command
import SplQuery.Proofs.Made.Notes
import SplQuery.Proofs.Stack.Trace

/-!
# Programs that restore the stacks

A program restores the stacks if what it does with them is nested, wherever it starts, and if it
names a delimiter that is left open by the lexeme that opened it. The latter may depend on what is
known where the program starts: that a delimiter is ahead is for the caller to see to.

* `Diagnostic.NamesOpener` — a delimiter that is left open is named.
* `Restores` — a program restores the stacks.
* `Restores.bind`, `Restores.node` and the like — the ways of putting steps together.
* `Restores.enclosed` — a group.
-/

namespace SplQuery

open State

namespace DiagnosticKind

/-- The delimiter that is left open where a diagnostic of a kind is made. -/
def opener? : DiagnosticKind → Option Kind
  | .unclosedParen => some .lparen
  | .unclosedSubsearch => some .lbracket
  | _ => none

end DiagnosticKind

/-- If the diagnostic is that a delimiter is left open, then it starts where one of the lexemes does
that opens such a delimiter, and the stretch of this lexeme is the only other one that it names. -/
def Diagnostic.NamesOpener (all : List Lexeme) (d : Diagnostic) : Prop :=
  ∀ k, d.kind.opener? = some k →
    ∃ l ∈ all, l.kind = k ∧ d.related.map (·.span) = [l.span] ∧ d.span.start = l.span.start

/-- The lexemes to come are among those given, and what was noted names them. -/
structure State.Names (all : List Lexeme) (s : State) : Prop where
  rest : s.rest ⊆ all
  reports : ∀ d ∈ s.reports, d.NamesOpener all

/-- What is directly ahead comes next unless it is trivia. -/
theorem State.next?_of_head {s : State} {k : Kind} (h : s.rest.head?.map (·.kind) = some k)
    (hk : k.isTrivia = false) : s.next? = some k := by
  obtain ⟨l, hl, rfl⟩ := Option.map_eq_some_iff.mp h
  obtain ⟨ls, hrest⟩ := List.head?_eq_some_iff.mp hl
  rw [next?, State.ahead, hrest, List.filter_cons_of_pos (by rw [Lexeme.isTrivia, hk]; rfl)]
  rfl

namespace State.Names

variable {all : List Lexeme} {s t : State}

theorem of_reports (h : s.Names all) (hrest : t.rest <:+ s.rest)
    (hreports : t.reports = s.reports) : t.Names all :=
  ⟨List.Subset.trans hrest.subset h.rest, hreports ▸ h.reports⟩

/-- The lexeme ahead is one of those given. -/
theorem ahead (h : s.Names all) {k : Kind} (hnext : s.next? = some k) :
    ∃ l ∈ all, l.kind = k ∧ l.span = s.skipTrivia.span := by
  obtain ⟨hnil, -⟩ | ⟨l, ls, hrest, hahead⟩ := rest_skipTrivia s
  · rw [next?, hnil] at hnext
    cases hnext
  · rw [next?, hahead] at hnext
    have hmem : l ∈ s.skipTrivia.rest := hrest ▸ List.mem_cons_self
    refine ⟨l, h.rest ((List.dropWhile_suffix _).subset hmem), Option.some.inj hnext, ?_⟩
    rw [span, hrest]
    rfl

/-- Another report is made unless the last one was made at the same place. -/
theorem told {notes : Notes} {place : Nat} {kind : DiagnosticKind} {span : Span}
    {message : String} {related : List Related} (h : ∀ d ∈ notes.reports, d.NamesOpener all)
    (hnew : ∀ hints, Diagnostic.NamesOpener all ⟨kind, span, message, related, hints⟩) :
    ∀ d ∈ (notes.told place kind span message related).reports, d.NamesOpener all := by
  rw [Notes.told]
  split
  · exact h
  · exact List.forall_mem_cons.mpr ⟨hnew _, h⟩

/-- Where the closer is missed, the innermost delimiter is named. -/
theorem close {closer k : Kind} {kind : DiagnosticKind} (hkind : kind.opener? = some k)
    (h : s.Names all)
    (hopener : ∀ o ∈ s.openers.head?, ∃ l ∈ all, l.kind = k ∧ l.span = o.span) :
    (Parser.close closer kind s).2.Names all := by
  have hrest := (Parser.close_ends closer kind s).rest
  refine ⟨List.Subset.trans hrest.subset h.rest, ?_⟩
  rw [Parser.close_eq]
  split
  · change ∀ d ∈ (s.withNotes s.notes.closed).skipTrivia.look.bump.notes.reports, _
    rw [notes_bump, notes_look]
    exact h.reports
  · change ∀ d ∈ (s.notes.unclosed kind s.skipTrivia.span).reports, _
    rw [Notes.unclosed, show s.notes.openers = s.openers from rfl]
    cases hhead : s.openers.head? with
    | none => exact h.reports
    | some o =>
      obtain ⟨l, hl, hlk, hspan⟩ := hopener o hhead
      refine told h.reports fun hints j hj => ?_
      obtain rfl : k = j := Option.some.inj (hkind.symm.trans hj)
      exact ⟨l, hl, hlk, by rw [hspan]; rfl, by rw [hspan]⟩

end State.Names

namespace Parser

/-- Nothing is known. -/
def Anywhere (_ : State) : Prop := True

theorem reports_look (s : State) : s.look.reports = s.reports :=
  congrArg Notes.reports (notes_look s)

theorem reports_bump (s : State) : s.bump.reports = s.reports :=
  congrArg Notes.reports (notes_bump s)

/-! ## Programs -/

/-- Wherever it starts, the program does nested things with the stacks, down to so many levels.
Where it starts from what is asked for, it names the delimiters that are left open. -/
structure Restores {α : Type} (n : Nat) (P : State → Prop) (p : Parser α) : Prop where
  nested : ∀ s, ∃ w, Traced p s w ∧ Action.Nested n w
  names : ∀ s all, P s → s.Names all → (p s).2.Names all

/-- Directly ahead there is a lexeme, and past trivia a parenthesis after it. -/
def BeforeParen (s : State) : Prop := s.Ready ∧ s.second? = some .lparen

namespace Restores

open SplQuery.Action

variable {α β σ : Type} {n : Nat} {P Q : State → Prop} {p : Parser α}

theorem openers (h : Restores n P p) (s : State) : (p s).2.openers = s.openers := by
  obtain ⟨w, htrace, hw⟩ := h.nested s
  exact (htrace.mirrors hw).1

theorem mono (h : Restores n Q p) (hPQ : ∀ s, P s → Q s) : Restores n P p :=
  ⟨h.nested, fun s all hs => h.names s all (hPQ s hs)⟩

/-- What holds anywhere holds where something is known. -/
theorem weaken (h : Restores n Anywhere p) : Restores n P p := h.mono fun _ _ => trivial

theorem pure (a : α) : Restores n P (Pure.pure a : Parser α) :=
  ⟨fun s => ⟨[], .pure a s, .nil⟩, fun _ _ _ h => h⟩

/-- One step after another, where the second may depend on what the first has found out. -/
theorem bindSeen {R : α → State → Prop} {f : α → Parser β} (hp : Restores n P p)
    (hseen : ∀ s, P s → R (p s).1 (p s).2) (hf : ∀ a, Restores n (R a) (f a)) :
    Restores n P (p >>= f) := by
  refine ⟨fun s => ?_, fun s all hs h => (hf _).names _ all (hseen s hs) (hp.names s all hs h)⟩
  obtain ⟨v, hv, hnested⟩ := hp.nested s
  obtain ⟨w, hw, hnested'⟩ := (hf (p s).1).nested (p s).2
  exact ⟨v ++ w, .bind hv hw, hnested.append hnested'⟩

theorem bind {f : α → Parser β} (hp : Restores n P p) (hf : ∀ a, Restores n Anywhere (f a)) :
    Restores n P (p >>= f) :=
  hp.bindSeen (fun _ _ => trivial) hf

theorem ite {c : Prop} [Decidable c] {p q : Parser α} (hp : Restores n P p)
    (hq : Restores n P q) : Restores n P (if c then p else q) := by
  split
  · exact hp
  · exact hq

theorem modify {f : State → State} (h : Stackless f) (hreports : ∀ s, (f s).reports = s.reports) :
    Restores n P (modify f : Parser PUnit) :=
  ⟨fun s => ⟨[], .modify h s, .nil⟩, fun s _ _ hs => hs.of_reports (h.rest s) (hreports s)⟩

theorem get : Restores n P (get : Parser State) :=
  ⟨fun s => ⟨[], .get s, .nil⟩, fun _ _ _ h => h⟩

/-! ## Looking ahead -/

section Questions

theorem current : Restores n P Parser.current :=
  .bind (.modify (.comp .look .skipTrivia) fun _ => reports_look _) fun _ =>
    .bind .get fun _ => .pure _

theorem adjacent : Restores n P Parser.adjacent :=
  .bind (.modify .look reports_look) fun _ => .bind .get fun _ => .pure _

theorem ahead : Restores n P Parser.ahead :=
  .bind (.modify .skipTrivia fun _ => rfl) fun _ => .bind .get fun _ => .pure _

theorem currentSpan : Restores n P Parser.currentSpan :=
  .bind (.modify .skipTrivia fun _ => rfl) fun _ => .bind .get fun _ => .pure _

theorem currentText : Restores n P Parser.currentText :=
  .bind (.modify .skipTrivia fun _ => rfl) fun _ => .bind .get fun _ => .pure _

theorem glued : Restores n P Parser.glued := .bind .get fun _ => .pure _

theorem isAt (kind : Kind) : Restores n P (Parser.isAt kind) := .bind .current fun _ => .pure _

theorem isIn (member : Kind → Bool) : Restores n P (Parser.isIn member) :=
  .bind .current fun _ => .pure _

theorem isAhead (kind : Kind) : Restores n P (Parser.isAhead kind) :=
  .bind .ahead fun _ => .pure _

theorem atStageEnd : Restores n P Parser.atStageEnd := .bind .current fun _ => .pure _

theorem or {q r : Parser Bool} (hq : Restores n P q) (hr : Restores n Anywhere r) :
    Restores n P (q <||> r) := by
  refine .bind hq fun b => ?_
  cases b with
  | true => exact .pure _
  | false => exact hr

theorem and {q r : Parser Bool} (hq : Restores n P q) (hr : Restores n Anywhere r) :
    Restores n P (q <&&> r) := by
  refine .bind hq fun b => ?_
  cases b with
  | true => exact hr
  | false => exact .pure _

theorem not {q : Parser Bool} (hq : Restores n P q) : Restores n P (notM q) :=
  .bind hq fun _ => .pure _

theorem require (member : Kind → Bool) : Restores n P (Parser.require member) :=
  .bind (.isIn member) fun _ => .ite (.pure _) (.modify (.withFault _) fun _ => rfl)

/-! ## What a question finds out -/

/-- A lexeme of a kind is ahead. -/
theorem ask {f : Option Kind → Parser β} (hf : ∀ k, Restores n (·.next? = k) (f k)) :
    Restores n P (Parser.current >>= f) := by
  refine .bindSeen .current (fun s _ => ?_) hf
  rw [current_eq]
  exact (next?_of_rest (look_rest _)).trans (next?_skipTrivia s)

/-- A lexeme of a kind is directly ahead. -/
theorem askAdjacent {f : Option Kind → Parser β}
    (hf : ∀ k, Restores n (·.rest.head?.map (·.kind) = k) (f k)) :
    Restores n P (Parser.adjacent >>= f) := by
  refine .bindSeen .adjacent (fun s _ => ?_) hf
  rw [adjacent_eq]
  change s.look.rest.head?.map _ = _
  rw [look_rest]

/-- Only the answer yes tells something. -/
theorem answered {f : Bool → Parser β} {q : Parser Bool} (hq : Restores n P q)
    (hseen : ∀ s, (q s).1 = true → Q (q s).2) (hyes : Restores n Q (f true))
    (hno : Restores n Anywhere (f false)) : Restores n P (q >>= f) := by
  refine .bindSeen (R := fun b t => b = true → Q t) hq (fun s _ => hseen s) fun b => ?_
  cases b with
  | true => exact hyes.mono fun _ h => h rfl
  | false => exact hno.weaken

/-- Whether a lexeme of a kind is ahead. -/
theorem askAt {f : Bool → Parser β} {kind : Kind}
    (hyes : Restores n (·.next? = some kind) (f true)) (hno : Restores n Anywhere (f false)) :
    Restores n P (Parser.isAt kind >>= f) := by
  refine .answered (.isAt kind) (fun s hs => ?_) hyes hno
  change ((Parser.current s).1 == some kind) = true at hs
  change (Parser.current s).2.next? = some kind
  rw [current_eq] at hs ⊢
  exact ((next?_of_rest (look_rest _)).trans (next?_skipTrivia s)).trans (eq_of_beq hs)

/-- A question that is asked only where something holds, and answered by yes. -/
theorem asked_of_yes {c : Prop} [Decidable c] {q : Parser Bool} {s : State}
    (h : ((if c then q else Pure.pure false : Parser Bool) s).1 = true) :
    (if c then q else Pure.pure false : Parser Bool) s = q s := by
  split at h
  · next hc => rw [if_pos hc]
  · cases h

/-- Whether a parenthesis comes second, where something else is asked before. -/
theorem askParen {f : Bool → Parser β} {q : Parser Bool} (hq : Restores n P q)
    (hseen : ∀ s, (q s).1 = true → ∃ t, q s = Parser.isAhead .lparen t)
    (hyes : Restores n BeforeParen (f true)) (hno : Restores n Anywhere (f false)) :
    Restores n P (q >>= f) := by
  refine .answered hq (fun s hs => ?_) hyes hno
  obtain ⟨t, ht⟩ := hseen s hs
  rw [ht] at hs ⊢
  change ((Parser.ahead t).1 == some .lparen) = true at hs
  rw [ahead_eq] at hs
  exact ⟨ready_skipTrivia t, (second?_skipTrivia t).trans (eq_of_beq hs)⟩

/-- What is required does not change what comes next. -/
theorem requireThen {f : Unit → Parser β} {k : Option Kind} {member : Kind → Bool}
    (hf : Restores n (·.next? = k) (f ())) :
    Restores n (·.next? = k) (Parser.require member >>= f) := by
  refine .bindSeen (R := fun _ t => t.next? = k) (.require member) (fun s hs => ?_) fun _ => hf
  have hlook : (Parser.current s).2.next? = s.next? := by
    rw [current_eq]
    exact (next?_of_rest (look_rest _)).trans (next?_skipTrivia s)
  refine Eq.trans ?_ (hlook.trans hs)
  change ((if (Parser.isIn member s).1 = true then Pure.pure () else _ : Parser Unit)
    (Parser.current s).2).2.next? = _
  split <;> rfl

end Questions

/-! ## Reading -/

section Reading

theorem bump : Restores n P Parser.bump := .modify .bump reports_bump

/-- After a word before a parenthesis has been read, the parenthesis is ahead. -/
theorem bumpThen {f : Unit → Parser β} (hf : Restores n (·.next? = some .lparen) (f ())) :
    Restores n BeforeParen (Parser.bump >>= f) := by
  refine .bindSeen (R := fun _ t => t.next? = some .lparen) .bump (fun s hs => ?_) fun _ => hf
  obtain ⟨hready, hsecond⟩ := hs
  rcases hrest : s.rest with _ | ⟨l, ls⟩
  · rw [second?, State.ahead, hrest] at hsecond
    cases hsecond
  · exact (next?_bump_eq hrest (hready l (hrest ▸ rfl))).trans hsecond

theorem eatTrivia : Restores n P Parser.eatTrivia :=
  .modify (.comp .drain .skipTrivia) fun _ => rfl

theorem eat (kind : Kind) : Restores n P (Parser.eat kind) :=
  .bind (.isAt kind) fun _ => .ite (.bind .bump fun _ => .pure _) (.pure _)

theorem mark : Restores n P Parser.mark := .bind .eatTrivia fun _ => .bind .get fun _ => .pure _

/-- What is known may be known of what the node begins with. -/
theorem nodeSeen {body : Parser α} (shape : Shape) (hseen : ∀ s, P s → Q (opened s))
    (h : Restores n Q body) : Restores n P (Parser.node shape body) := by
  refine ⟨fun s => ?_, fun s all hs hall => ?_⟩
  · obtain ⟨w, htrace, hw⟩ := h.nested (opened s)
    exact ⟨_, .node shape htrace, .single (.node n) hw⟩
  · have hin := h.names (opened s) all (hseen s hs) ⟨hall.rest, hall.reports⟩
    exact ⟨hin.rest, hin.reports⟩

theorem node {body : Parser α} (shape : Shape) (h : Restores n Anywhere body) :
    Restores n P (Parser.node shape body) :=
  .nodeSeen shape (fun _ _ => trivial) h

theorem wrapFromSeen {body : Parser Unit} (mark : Nat) (shape : Shape)
    (hseen : ∀ s, P s → Q (cut mark s)) (h : Restores n Q body) :
    Restores n P (Parser.wrapFrom mark shape body) := by
  refine ⟨fun s => ?_, fun s all hs hall => ?_⟩
  · obtain ⟨w, htrace, hw⟩ := h.nested (cut mark s)
    exact ⟨_, .wrapFrom mark shape htrace, .single (.node n) hw⟩
  · have hin := h.names (cut mark s) all (hseen s hs) ⟨hall.rest, hall.reports⟩
    exact ⟨hin.rest, hin.reports⟩

theorem wrapFrom {body : Parser Unit} (mark : Nat) (shape : Shape)
    (h : Restores n Anywhere body) : Restores n P (Parser.wrapFrom mark shape body) :=
  .wrapFromSeen mark shape (fun _ _ => trivial) h

theorem single (shape : Shape) : Restores n P (Parser.single shape) := .node shape .bump

end Reading

/-! ## Noting what is wrong -/

section Noting

variable {kind : DiagnosticKind}

theorem fresh (place : Nat) : Restores n P (Parser.fresh place) :=
  .bind .get fun _ => .ite (.pure _) (.bind (.modify (.noteAt _) fun _ => rfl) fun _ => .pure _)

/-- A report that is not of a delimiter names none. -/
theorem reportAt (hkind : kind.opener? = none) (span : Span) (detail : Option String) :
    Restores n P (Parser.reportAt kind span detail) := by
  refine .bind (.fresh _) fun _ => .ite ⟨fun s => ⟨[], ?_, .nil⟩, fun s all _ hs => ?_⟩ (.pure _)
  · exact .modify (.addReport _ _ _ _) s
  · refine ⟨hs.rest, List.forall_mem_cons.mpr ⟨fun k hk => ?_, hs.reports⟩⟩
    cases hkind.symm.trans hk

theorem report (hkind : kind.opener? = none) : Restores n P (Parser.report kind) :=
  .bind .currentSpan fun _ => .reportAt hkind _ _

theorem reportWith (hkind : kind.opener? = none) (detail : String) :
    Restores n P (Parser.reportWith kind detail) :=
  .bind .currentSpan fun _ => .reportAt hkind _ _

theorem bumpAsError : Restores n P Parser.bumpAsError :=
  .bind .get fun _ => .ite (.pure _) (.single _)

theorem refuse (hkind : kind.opener? = none) : Restores n P (Parser.refuse kind) :=
  .bind (.report hkind) fun _ => .bumpAsError

theorem refuseWith (hkind : kind.opener? = none) (detail : String) :
    Restores n P (Parser.refuseWith kind detail) :=
  .bind (.reportWith hkind detail) fun _ => .bumpAsError

theorem expect (kind : Kind) (spelling : String) : Restores n P (Parser.expect kind spelling) :=
  .bind (.eat kind) fun _ => .ite (.pure _) (.bind (.reportWith rfl _) fun _ => .pure _)

end Noting

/-! ## Repetition -/

section Repetition

theorem loopFrom {body : σ → Parser (ForInStep σ)} (h : ∀ a, Restores n Anywhere (body a)) :
    ∀ fuel a, Restores n Anywhere (Parser.loopFrom body fuel a) := by
  intro fuel
  induction fuel with
  | zero => exact fun a => .bind (.modify (.withFault _) fun _ => rfl) fun _ => .pure a
  | succ fuel ih =>
    refine fun a => .bind (h a) fun step => ?_
    cases step with
    | done b => exact .pure b
    | yield b => exact ih b

theorem loop {init : σ} {body : σ → Parser (ForInStep σ)}
    (h : ∀ a, Restores n Anywhere (body a)) : Restores n P (Parser.loop init body) :=
  .bind .get fun _ => .loopFrom h _ _

theorem whileTrue {body : Parser Bool} (h : Restores n Anywhere body) :
    Restores n P (Parser.whileTrue body) :=
  .loop fun _ => .bind h fun _ => .pure _

end Repetition

/-! ## Recovery, commands and levels -/

theorem skipOne (stopAtPipe : Bool) (depth : Nat) :
    Restores n P (Parser.skipOne stopAtPipe depth) := by
  have hstep (Q : State → Prop) (depth : Nat) :
      Restores n Q (Parser.bump >>= fun _ => Pure.pure (ForInStep.yield depth)) :=
    .bind .bump fun _ => .pure _
  refine .bind .current fun k => ?_
  dsimp only
  split
  · exact .pure _
  · exact .ite (.pure _) (hstep _ _)
  · exact .ite (.pure _) (hstep _ _)
  all_goals exact hstep _ _

theorem skipBalanced (stopAtPipe : Bool) : Restores n P (Parser.skipBalanced stopAtPipe) :=
  .bind (.loop fun _ => .skipOne _ _) fun _ => .pure _

theorem recover {kind : DiagnosticKind} (hkind : kind.opener? = none) (detail : String) :
    Restores n P (Parser.recover kind detail) :=
  .bind .atStageEnd fun _ => .ite (.reportWith hkind _)
    (.node _ (.bind (.reportWith hkind _) fun _ => .skipBalanced _))

theorem inCommand {body : Parser Unit} (word : Option CommandWord) (h : Restores n Anywhere body) :
    Restores n P (Parser.inCommand word body) := by
  refine ⟨fun s => ?_, fun s all _ hall => ?_⟩
  · obtain ⟨w, htrace, hw⟩ := h.nested (entered word s)
    exact ⟨_, .inCommand word htrace, .single (.command n word) hw⟩
  · have hin := h.names (entered word s) all trivial ⟨hall.rest, hall.reports⟩
    exact ⟨hin.rest, hin.reports⟩

/-- What is done a level down. -/
theorem descend {inner : Inner} {body : Inner → Parser Unit} (stopAtPipe : Bool)
    (h : Restores n Anywhere (body inner)) :
    Restores (n + 1) P (Parser.descend (some inner) stopAtPipe body) := by
  refine ⟨fun s => ?_, fun s all _ hall => ?_⟩
  · obtain ⟨w, htrace, hw⟩ := h.nested s.refresh
    exact ⟨_, .descend stopAtPipe htrace, .single (.level n) hw⟩
  · have hin := h.names s.refresh all trivial ⟨hall.rest, hall.reports⟩
    exact ⟨hin.rest, hin.reports⟩

/-- Where there is no level to go down to. -/
theorem descend_none (stopAtPipe : Bool) (body : Inner → Parser Unit) :
    Restores n P (Parser.descend none stopAtPipe body) :=
  .bind .currentSpan fun _ => .bind .get fun _ =>
    .ite (.node _ (.skipBalanced _)) (.bind (.reportAt rfl _ _) fun _ => .node _ (.skipBalanced _))

/-! ## Groups -/

/-- **A group takes from the stack what it has put there.** Where its opener is ahead, this is what
is named if the closer is missing. -/
theorem enclosed {opener closer : Kind} {kind : DiagnosticKind} {opening : Parser α}
    {body : Parser β} (hkind : kind.opener? = some opener) (hopening : Restores n Anywhere opening)
    (hbody : Restores n Anywhere body) :
    Restores n (·.next? = some opener) (pushOpener opener >>= fun _ => opening >>= fun _ =>
      body >>= fun _ => close closer kind) := by
  have hinside : Restores n Anywhere (opening >>= fun _ => body) := .bind hopening fun _ => hbody
  refine ⟨fun s => ?_, fun s all hs hall => ?_⟩
  · obtain ⟨w, htrace, hw⟩ := hinside.nested (pushOpener opener s).2
    have hall : Traced (pushOpener opener >>= fun _ => (opening >>= fun _ => body) >>= fun _ =>
        close closer kind) s _ :=
      .bind (.pushOpener opener s) (.bind htrace (.close closer kind _))
    exact ⟨_, hall, .single (.opener n _) hw⟩
  · obtain ⟨l, hl, hlk, hspan⟩ := hall.ahead hs
    have hpushed : (pushOpener opener s).2.Names all :=
      hall.of_reports (List.dropWhile_suffix _) rfl
    have hopeners := hinside.openers (pushOpener opener s).2
    refine (hinside.names _ all trivial hpushed).close hkind fun o ho => ?_
    -- what stands inside has restored the stack, so that the opener is on top of it again
    change o ∈ ((opening >>= fun _ => body) (pushOpener opener s).2).2.openers.head? at ho
    rw [hopeners] at ho
    obtain rfl : _ = o := Option.some.inj ho
    exact ⟨l, hl, hlk, hspan⟩

end Restores

end Parser

end SplQuery
