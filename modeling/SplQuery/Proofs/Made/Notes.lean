import SplQuery.Proofs.Made.Sights

/-!
# What a parse notes and passes over

Apart from the tree, a parse keeps note of what is wrong, of the delimiters that are open and of the
commands that are being parsed. What a step notes depends on these notes and on the place of the
lexeme ahead, and the tree does not depend on them.

* `Notes` — the notes of a state.
* `Notes.told`, `Notes.unclosed`, `Notes.tooDeep` — what reports add to them.
* `Parser.reportWith_eq` and the like — the steps that report something, in these terms.
* `Parser.skipOne_of_some`, `Parser.descend_none` — what is passed over.
-/

namespace SplQuery

namespace Kind

/-- How many delimiters are open after a lexeme of a kind, of so many before it. -/
def depthAfter (depth : Nat) : Kind → Nat
  | .lparen | .lbracket => depth + 1
  | .rparen | .rbracket => depth - 1
  | _ => depth

/-- Whether skipping ends at a lexeme of a kind, with so many delimiters open. -/
def endsSkip (stopAtPipe : Bool) (depth : Nat) : Kind → Bool
  | .pipe => stopAtPipe && depth == 0
  | .rbracket => depth == 0
  | _ => false

end Kind

/-- What a parse notes, and the place of the end of the query. -/
structure Notes where
  reports : List Diagnostic
  lastReport : Option Nat
  openers : List Opener
  commands : List (Option CommandWord)
  stop : Nat

namespace Notes

/-- How to write the innermost command, if it is known. -/
def usageHint (n : Notes) : Option String :=
  (n.commands.head?.join.bind fun w => CommandSyntax.usage? w.spelling).map ("usage: " ++ ·)

/-- The stretch of the first of the lexemes to come, or the place of the end. -/
def spanAhead (n : Notes) (rest : List Lexeme) : Span := rest.head?.elim (.emptyAt n.stop) (·.span)

/-- The notes with a report made at a place, unless the last one was made there too. -/
def told (n : Notes) (place : Nat) (kind : DiagnosticKind) (span : Span) (message : String)
    (related : List Related) : Notes :=
  if (n.lastReport == some place) = true then n
  else { n with
    lastReport := some place
    reports := ⟨kind, span, message, related, n.usageHint.toList⟩ :: n.reports }

/-- A report at the stretch that it is about. -/
def toldAt (n : Notes) (kind : DiagnosticKind) (span : Span) (detail : Option String) : Notes :=
  n.told span.start kind span (kind.message detail) []

/-- A delimiter is open. -/
def opened (n : Notes) (kind : Kind) (span : Span) : Notes :=
  { n with openers := ⟨kind, span⟩ :: n.openers }

/-- The innermost delimiter is no longer open. -/
def closed (n : Notes) : Notes := { n with openers := n.openers.tail }

/-- The innermost delimiter is no longer open, and its closer was missed at a stretch. -/
def unclosed (n : Notes) (kind : DiagnosticKind) (here : Span) : Notes :=
  n.openers.head?.elim n.closed fun o =>
    n.closed.told here.start kind ⟨o.span.start, here.stop⟩ kind.fallback
      [⟨o.span, if o.kind = .lbracket then "subsearch starts here"
        else "opening \x60(\x60 is here"⟩]

/-- The limit was reached at a stretch. -/
def tooDeep (n : Notes) (here : Span) : Notes :=
  if n.reports.any (·.kind == .recursionLimitExceeded) = true then n
  else n.toldAt .recursionLimitExceeded here none

/-- A command is being parsed. -/
def entered (n : Notes) (word : Option CommandWord) : Notes :=
  { n with commands := word :: n.commands }

/-- The innermost command is no longer being parsed. -/
def left (n : Notes) : Notes := { n with commands := n.commands.tail }

end Notes

namespace State

/-- What the state notes. -/
def notes (s : State) : Notes := ⟨s.reports, s.lastReport, s.openers, s.commands, s.stop⟩

/-- The state with other notes. -/
def withNotes (s : State) (n : Notes) : State :=
  { s with
    reports := n.reports
    lastReport := n.lastReport
    openers := n.openers
    commands := n.commands
    stop := n.stop }

theorem span_eq (s : State) : s.span = s.notes.spanAhead s.rest := rfl

theorem notes_look (s : State) : s.look.notes = s.notes := by
  unfold look
  split <;> rfl

theorem notes_bump (s : State) : s.bump.notes = s.notes := by
  unfold bump
  split <;> rfl

end State

namespace Parser

open State

variable {s : State}

theorem fresh_eq (place : Nat) (s : State) :
    fresh place s = if (s.lastReport == some place) = true then (false, s)
      else (true, { s with lastReport := some place }) := by
  change (if (s.lastReport == some place) = true then (Pure.pure false : Parser Bool)
    else modify _ >>= fun _ => Pure.pure true) s = _
  split <;> rfl

theorem reportAt_eq (kind : DiagnosticKind) (span : Span) (detail : Option String) (s : State) :
    reportAt kind span detail s = ((), s.withNotes (s.notes.toldAt kind span detail)) := by
  change (if (fresh span.start s).1 = true then (modify _ : Parser Unit) else Pure.pure ())
    (fresh span.start s).2 = _
  rw [fresh_eq, Notes.toldAt, Notes.told]
  change _ = ((), s.withNotes (if (s.lastReport == some span.start) = true then _ else _))
  split <;> rfl

theorem report_eq (kind : DiagnosticKind) (s : State) :
    report kind s = ((), s.skipTrivia.withNotes (s.notes.toldAt kind s.skipTrivia.span none)) :=
  reportAt_eq kind s.skipTrivia.span none s.skipTrivia

theorem reportWith_eq (kind : DiagnosticKind) (detail : String) (s : State) :
    reportWith kind detail s =
      ((), s.skipTrivia.withNotes (s.notes.toldAt kind s.skipTrivia.span (some detail))) :=
  reportAt_eq kind s.skipTrivia.span (some detail) s.skipTrivia

theorem pushOpener_eq (kind : Kind) (s : State) :
    pushOpener kind s =
      ((), s.skipTrivia.withNotes (s.notes.opened kind s.skipTrivia.span)) := rfl

/-- Where the closer is missing, this is told of the delimiter. -/
theorem reportUnclosed_eq (kind : DiagnosticKind) (o : Opener) (s : State) :
    reportUnclosed kind o s = ((), s.skipTrivia.withNotes
      (s.notes.told s.skipTrivia.span.start kind ⟨o.span.start, s.skipTrivia.span.stop⟩
        kind.fallback [⟨o.span, if o.kind = .lbracket then "subsearch starts here"
          else "opening \x60(\x60 is here"⟩])) := by
  change (if (fresh s.skipTrivia.span.start s.skipTrivia).1 = true then (modify _ : Parser Unit)
    else Pure.pure ()) (fresh s.skipTrivia.span.start s.skipTrivia).2 = _
  rw [fresh_eq, Notes.told]
  change _ = ((), s.skipTrivia.withNotes
    (if (s.skipTrivia.lastReport == some s.skipTrivia.span.start) = true then _ else _))
  split <;> rfl

theorem eat_eq (kind : Kind) (s : State) :
    eat kind s = if (s.next? == some kind) = true then (true, s.skipTrivia.look.bump)
      else (false, s.skipTrivia.look) := by
  change (if ((current s).1 == some kind) = true then bump >>= fun _ => Pure.pure true
    else Pure.pure false : Parser Bool) (current s).2 = _
  rw [current_eq]
  split <;> rfl

/-- The closer is read if it is next, and missed at the lexeme that is next otherwise. -/
theorem close_eq (closer : Kind) (kind : DiagnosticKind) (s : State) :
    close closer kind s =
      if (s.next? == some closer) = true then
        ((), (s.withNotes s.notes.closed).skipTrivia.look.bump)
      else ((), (s.withNotes s.notes.closed).skipTrivia.look.withNotes
        (s.notes.unclosed kind s.skipTrivia.span)) := by
  change (if (eat closer (s.withNotes s.notes.closed)).1 = true then (Pure.pure () : Parser Unit)
    else s.openers.head?.forM (reportUnclosed kind)) (eat closer (s.withNotes s.notes.closed)).2 = _
  rw [eat_eq, show (s.withNotes s.notes.closed).next? = s.next? from rfl]
  split
  · rfl
  · have hskip : (s.withNotes s.notes.closed).skipTrivia.look.skipTrivia =
        (s.withNotes s.notes.closed).skipTrivia.look :=
      ((ready_skipTrivia _).of_rest (look_rest _)).skipTrivia
    have hnotes : (s.withNotes s.notes.closed).skipTrivia.look.notes = s.notes.closed :=
      notes_look _
    have hspan : (s.withNotes s.notes.closed).skipTrivia.look.span = s.skipTrivia.span := by
      rw [span_eq, span_eq, look_rest, hnotes]
      rfl
    generalize (s.withNotes s.notes.closed).skipTrivia.look = u at hskip hnotes hspan
    rw [Notes.unclosed]
    change (s.notes.openers.head?.forM (reportUnclosed kind)) u = _
    cases s.notes.openers.head? with
    | none =>
      rw [Option.elim_none, ← hnotes]
      rfl
    | some o =>
      rw [Option.elim_some]
      refine (reportUnclosed_eq kind o u).trans ?_
      rw [hskip, hnotes, hspan]

/-! ## Passing over -/

theorem skipOne_of_none {stopAtPipe : Bool} {depth : Nat} (h : s.next? = none) :
    skipOne stopAtPipe depth s = (.done depth, s.skipTrivia.look) := by
  simp only [skipOne, bind, StateT.bind, current_eq, h]
  rfl

theorem skipOne_of_some {stopAtPipe : Bool} {depth : Nat} {k : Kind} (h : s.next? = some k) :
    skipOne stopAtPipe depth s =
      if k.endsSkip stopAtPipe depth = true then (.done depth, s.skipTrivia.look)
      else (.yield (k.depthAfter depth), s.skipTrivia.look.bump) := by
  simp only [skipOne, bind, StateT.bind, current_eq, h]
  cases k with
  | pipe => cases stopAtPipe <;> cases depth <;> rfl
  | rbracket => cases depth <;> rfl
  | _ => rfl

/-- At the limit what would be nested is passed over. -/
theorem descend_none (stopAtPipe : Bool) (body : Inner → Parser Unit) (s : State) :
    descend none stopAtPipe body s = node .error (skipBalanced stopAtPipe)
      (s.skipTrivia.withNotes (s.notes.tooDeep s.skipTrivia.span)) := by
  change (if s.reports.any (·.kind == .recursionLimitExceeded) = true then
      node .error (skipBalanced stopAtPipe)
    else reportAt .recursionLimitExceeded s.skipTrivia.span none >>= fun _ =>
      node .error (skipBalanced stopAtPipe)) s.skipTrivia = _
  rw [Notes.tooDeep]
  change _ = node .error (skipBalanced stopAtPipe) (s.skipTrivia.withNotes
    (if s.reports.any (·.kind == .recursionLimitExceeded) = true then _ else _))
  split
  · rfl
  · change node .error (skipBalanced stopAtPipe)
      (reportAt .recursionLimitExceeded s.skipTrivia.span none s.skipTrivia).2 = _
    rw [reportAt_eq]
    rfl

end Parser

end SplQuery
