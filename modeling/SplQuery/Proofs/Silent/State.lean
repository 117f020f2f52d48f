import SplQuery.Proofs.Made.Faults
import SplQuery.Proofs.Made.Notes

/-!
# States in which nothing has been noted

Where no report has been made at what is still to come, whatever a step finds wrong is noted. So
from a step that notes nothing one learns what it has read: it did not miss anything that it looked
for.

* `Lexeme.kinds` — the kinds of lexemes, trivia left aside.
* `State.Audible` — nothing that is found wrong from here on is left out of the reports.
* `State.Took` — lexemes have been read and nothing has been noted.
* `Retaining` — a step that does not unsay anything.
-/

namespace SplQuery

namespace Lexeme

/-- The kinds of lexemes, trivia left aside. -/
def kinds (ls : List Lexeme) : List Kind := (solid ls).map (·.kind)

variable {l : Lexeme} {ls : List Lexeme}

theorem kinds_append (ls ms : List Lexeme) : kinds (ls ++ ms) = kinds ls ++ kinds ms := by
  rw [kinds, solid_append, List.map_append, kinds, kinds]

theorem kinds_cons (h : l.isTrivia = false) (ls : List Lexeme) :
    kinds (l :: ls) = l.kind :: kinds ls := by
  rw [kinds, solid_cons h, List.map_cons, kinds]

theorem kinds_of_solid_nil (h : solid ls = []) : kinds ls = [] := by
  rw [kinds, h, List.map_nil]

end Lexeme

namespace State

open Lexeme

/-- No report was made at the lexemes to come or at the end, so that none is left out because
another one stands there, and none was made of the limit. -/
structure Audible (s : State) : Prop where
  stop : s.lastReport ≠ some s.stop
  rest : ∀ l ∈ s.rest, s.lastReport ≠ some l.span.start
  limit : s.reports.any (·.kind == .recursionLimitExceeded) = false

/-- Lexemes have been read and nothing has been noted. -/
structure Took (read : List Lexeme) (s t : State) : Prop where
  rest : s.rest = read ++ t.rest
  reports : t.reports = s.reports
  lastReport : t.lastReport = s.lastReport
  stop : t.stop = s.stop

/-- Reports stay, and the same delimiters are open. -/
structure Retains (s t : State) : Prop where
  reports : s.reports <:+ t.reports
  openers : t.openers = s.openers

/-- Nothing was noted, and nothing but trivia read. -/
structure Glances (s t : State) : Prop where
  openers : t.openers = s.openers
  took : ∃ read, solid read = [] ∧ Took read s t

variable {s t u : State} {read more : List Lexeme}

theorem audible_start (lexemes : List Lexeme) (stop : Nat) : (start lexemes stop).Audible :=
  ⟨nofun, fun _ _ => nofun, rfl⟩

/-! ## What was read -/

theorem Took.refl (s : State) : Took [] s s := ⟨rfl, rfl, rfl, rfl⟩

theorem Took.trans (h : Took read s t) (h' : Took more t u) : Took (read ++ more) s u :=
  ⟨by rw [h.rest, h'.rest, List.append_assoc], h'.reports.trans h.reports,
    h'.lastReport.trans h.lastReport, h'.stop.trans h.stop⟩

theorem Took.of_notes (hrest : s.rest = read ++ t.rest) (h : t.notes = s.notes) :
    Took read s t :=
  ⟨hrest, congrArg Notes.reports h, congrArg Notes.lastReport h, congrArg Notes.stop h⟩

theorem Took.ahead_eq (h : Took read s t) : s.ahead = solid read ++ t.ahead := by
  rw [State.ahead, h.rest]
  exact solid_append ..

theorem Audible.took (hs : s.Audible) (h : Took read s t) : t.Audible := by
  refine ⟨?_, fun l hl => ?_, ?_⟩
  · rw [h.lastReport, h.stop]
    exact hs.stop
  · rw [h.lastReport]
    exact hs.rest l (h.rest ▸ List.mem_append_right _ hl)
  · rw [h.reports]
    exact hs.limit

theorem took_skipTrivia (s : State) :
    Took (s.rest.takeWhile Lexeme.isTrivia) s s.skipTrivia :=
  .of_notes List.takeWhile_append_dropWhile.symm rfl

theorem took_look (s : State) : Took [] s s.look := .of_notes (look_rest s).symm (notes_look s)

theorem took_bump {l : Lexeme} {ls : List Lexeme} (h : s.rest = l :: ls) : Took [l] s s.bump := by
  refine .of_notes ?_ (notes_bump s)
  rw [bump_of_cons h]
  exact h

/-- The next lexeme is read, and the trivia before it. -/
theorem took_next {k : Kind} (h : s.next? = some k) :
    ∃ front l, solid front = [] ∧ l.kind = k ∧ l.isTrivia = false ∧
      Took (front ++ [l]) s s.skipTrivia.look.bump := by
  obtain ⟨hready, hnext⟩ := Sight.Holds.here_of_next? h
  obtain ⟨l, ls, hrest, hk, hl⟩ := hready.rest_of_next? hnext
  have hlook : s.skipTrivia.look.rest = l :: ls := (look_rest _).trans hrest
  exact ⟨_, l, solid_takeWhile _, hk, hl,
    (took_skipTrivia s).trans ((took_look _).trans (took_bump hlook))⟩

/-! ## Glances -/

theorem Glances.of_took (hopeners : t.openers = s.openers) (h : Took [] s t) : Glances s t :=
  ⟨hopeners, [], rfl, h⟩

theorem Glances.trans (h : Glances s t) (h' : Glances t u) : Glances s u := by
  obtain ⟨read, hread, htook⟩ := h.took
  obtain ⟨more, hmore, htook'⟩ := h'.took
  refine ⟨h'.openers.trans h.openers, read ++ more, ?_, htook.trans htook'⟩
  rw [solid_append, hread, hmore, List.append_nil]

theorem Glances.ahead_eq (h : Glances s t) : t.ahead = s.ahead := by
  obtain ⟨read, hread, htook⟩ := h.took
  rw [htook.ahead_eq, hread, List.nil_append]

theorem glances_skipTrivia (s : State) : Glances s s.skipTrivia :=
  ⟨rfl, _, solid_takeWhile _, took_skipTrivia s⟩

theorem glances_look (s : State) : Glances s s.look :=
  .of_took (congrArg Notes.openers (notes_look s)) (took_look s)

theorem glances_eatTrivia (s : State) : Glances s s.skipTrivia.drain :=
  (glances_skipTrivia s).trans (.of_took rfl ⟨rfl, rfl, rfl, rfl⟩)

theorem glances_current (s : State) : Glances s (Parser.current s).2 := by
  rw [Parser.current_eq]
  exact (glances_skipTrivia s).trans (glances_look _)

/-! ## Reports -/

theorem Retains.refl (s : State) : s.Retains s := ⟨List.suffix_refl _, rfl⟩

theorem Retains.trans (h : s.Retains t) (h' : t.Retains u) : s.Retains u :=
  ⟨h.reports.trans h'.reports, h'.openers.trans h.openers⟩

/-- What is noted in two steps is noted in neither if nothing is noted in both. -/
theorem Retains.reports_eq (h : s.Retains t) (h' : t.Retains u) (heq : u.reports = s.reports) :
    t.reports = s.reports :=
  (h.reports.eq_of_length_le (heq ▸ h'.reports.length_le)).symm

theorem Retains.of_notes (h : t.notes = s.notes) : s.Retains t := by
  have hreports : t.reports = s.reports := congrArg Notes.reports h
  exact ⟨hreports ▸ List.suffix_refl _, congrArg Notes.openers h⟩

theorem Retains.of_told {place : Nat} {kind : DiagnosticKind} {span : Span} {message : String}
    {related : List Related} (h : t.notes = s.notes.told place kind span message related) :
    s.Retains t := by
  rw [Notes.told] at h
  split at h
  · exact .of_notes h
  · have hreports : t.reports = _ := congrArg Notes.reports h
    exact ⟨hreports ▸ List.suffix_cons _ _, congrArg Notes.openers h⟩

theorem Glances.retains (h : Glances s t) : s.Retains t := by
  obtain ⟨read, -, htook⟩ := h.took
  exact ⟨htook.reports ▸ List.suffix_refl _, h.openers⟩

/-- What is told at what is next is noted. -/
theorem Audible.told_ne (hs : s.Audible) (kind : DiagnosticKind) (stretch : Span)
    (message : String) (related : List Related) {n : Notes} (hreports : n.reports = s.reports)
    (hlast : n.lastReport = s.lastReport) :
    (n.told s.skipTrivia.span.start kind stretch message related).reports ≠ s.reports := by
  have hfresh : ¬ (n.lastReport == some s.skipTrivia.span.start) = true := by
    rw [beq_iff_eq, hlast, span]
    cases hrest : s.skipTrivia.rest with
    | nil => exact hs.stop
    | cons l ls =>
      exact hs.rest l ((List.dropWhile_suffix _).mem (hrest ▸ List.mem_cons_self))
  rw [Notes.told, if_neg hfresh, ← hreports]
  exact fun h => List.cons_ne_self _ _ h

end State

open State

/-- Reports stay, and the same delimiters are open. -/
def Retaining (sight : Sight) {α : Type} (p : Parser α) : Prop :=
  ∀ s, sight.Holds s → s.Retains (p s).2

namespace Retaining

open SplQuery.Parser

variable {sight : Sight} {α β σ : Type} {p : Parser α}

theorem bind {f : α → Parser β} (hp : Retaining sight p) (hf : ∀ a, Retaining .nothing (f a)) :
    Retaining sight (p >>= f) :=
  fun s hs => (hp s hs).trans (hf _ _ trivial)

theorem of_notes (h : ∀ s, (p s).2.notes = s.notes) : Retaining sight p :=
  fun s _ => .of_notes (h s)

theorem node {shape : Shape} (h : Retaining .nothing p) :
    Retaining sight (Parser.node shape p) :=
  fun s _ => ⟨(h (opened s) trivial).reports, (h (opened s) trivial).openers⟩

theorem loopFrom {body : σ → Parser (ForInStep σ)} (h : ∀ a, Retaining .nothing (body a)) :
    ∀ fuel a, Retaining .nothing (Parser.loopFrom body fuel a) := by
  intro fuel
  induction fuel with
  | zero => exact fun a => of_notes fun _ => rfl
  | succ fuel ih =>
    refine fun a => (h a).bind fun step => ?_
    cases step with
    | done b => exact of_notes fun _ => rfl
    | yield b => exact ih b

theorem skipBalanced (stopAtPipe : Bool) :
    Retaining .nothing (Parser.skipBalanced stopAtPipe) := by
  have hround (depth : Nat) : Retaining .nothing (skipOne stopAtPipe depth) := by
    refine of_notes fun s => ?_
    cases h : s.next? with
    | none =>
      rw [skipOne_of_none h]
      exact notes_look _
    | some k =>
      rw [skipOne_of_some h]
      split
      · exact notes_look _
      · exact (notes_bump _).trans (notes_look _)
  exact fun s hs => loopFrom hround (s.rest.length + 2) 0 s hs

theorem bumpAsError : Retaining .nothing Parser.bumpAsError := by
  refine bind (of_notes fun _ => rfl) fun s => ?_
  split
  · exact of_notes fun _ => rfl
  · exact node (of_notes notes_bump)

theorem report (kind : DiagnosticKind) : Retaining sight (Parser.report kind) :=
  fun s _ => .of_told (congrArg (·.2.notes) (report_eq kind s))

theorem reportWith (kind : DiagnosticKind) (detail : String) :
    Retaining sight (Parser.reportWith kind detail) :=
  fun s _ => .of_told (congrArg (·.2.notes) (reportWith_eq kind detail s))

end Retaining

end SplQuery
