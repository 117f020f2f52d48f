import SplQuery.Text.Span

/-!
# Diagnostics

What is found wrong with a query: a kind, the stretch of text that is meant, a message, related
stretches and hints. Of several diagnostics that start at one place only the one of the most
important kind is worth showing (`Diagnostic.filtered`).
-/

namespace SplQuery

/-- The kinds of diagnostics, the most important first: delimiters that are left open, then what is
missing, then what does not belong, then limits. -/
inductive DiagnosticKind where
  | unclosedSubsearch | unclosedParen
  | expectedCommand | expectedExpression | expectedField | expectedValue | expectedString
  | expectedAggregation | expectedToken
  | unrecognizedInput | unmatchedBracket | unmatchedParen | unexpectedToken
  | recursionLimitExceeded
  deriving DecidableEq, Repr

namespace DiagnosticKind

/-- Every kind, the most important first. -/
def all : List DiagnosticKind := [
  .unclosedSubsearch, .unclosedParen, .expectedCommand, .expectedExpression, .expectedField,
  .expectedValue, .expectedString, .expectedAggregation, .expectedToken, .unrecognizedInput,
  .unmatchedBracket, .unmatchedParen, .unexpectedToken, .recursionLimitExceeded]

/-- The name of the kind. -/
def name : DiagnosticKind → String
  | .unclosedSubsearch => "UnclosedSubsearch"
  | .unclosedParen => "UnclosedParen"
  | .expectedCommand => "ExpectedCommand"
  | .expectedExpression => "ExpectedExpression"
  | .expectedField => "ExpectedField"
  | .expectedValue => "ExpectedValue"
  | .expectedString => "ExpectedString"
  | .expectedAggregation => "ExpectedAggregation"
  | .expectedToken => "ExpectedToken"
  | .unrecognizedInput => "UnrecognizedInput"
  | .unmatchedBracket => "UnmatchedBracket"
  | .unmatchedParen => "UnmatchedParen"
  | .unexpectedToken => "UnexpectedToken"
  | .recursionLimitExceeded => "RecursionLimitExceeded"

/-- The kind with a given name. -/
def ofName? (name : String) : Option DiagnosticKind := all.find? (·.name == name)

/-- The place of a kind in the order of importance, the most important first. -/
def rank : DiagnosticKind → Nat
  | .unclosedSubsearch => 0
  | .unclosedParen => 1
  | .expectedCommand => 2
  | .expectedExpression => 3
  | .expectedField => 4
  | .expectedValue => 5
  | .expectedString => 6
  | .expectedAggregation => 7
  | .expectedToken => 8
  | .unrecognizedInput => 9
  | .unmatchedBracket => 10
  | .unmatchedParen => 11
  | .unexpectedToken => 12
  | .recursionLimitExceeded => 13

/-- Whether a kind is more important than another. -/
def suppresses (k other : DiagnosticKind) : Bool := k.rank < other.rank

/-- The message without a detail. -/
def fallback : DiagnosticKind → String
  | .unclosedSubsearch => "missing closing \x60]\x60"
  | .unclosedParen => "missing closing \x60)\x60"
  | .expectedCommand => "expected a command"
  | .expectedExpression => "expected an expression"
  | .expectedField => "expected a field name"
  | .expectedValue => "expected a value"
  | .expectedString => "expected a quoted string"
  | .expectedAggregation => "expected an aggregation"
  | .expectedToken => "expected token"
  | .unrecognizedInput => "unrecognized input"
  | .unmatchedBracket => "unmatched \x60]\x60"
  | .unmatchedParen => "unmatched \x60)\x60"
  | .unexpectedToken => "unexpected token"
  | .recursionLimitExceeded => "query is nested too deeply"

/-- The message with a detail. -/
def detailed (k : DiagnosticKind) (detail : String) : String :=
  match k with
  | .expectedToken => "expected \x60" ++ detail ++ "\x60"
  | k => k.fallback ++ ": " ++ detail

/-- The message, with a detail if there is one. -/
def message (k : DiagnosticKind) (detail : Option String) : String :=
  detail.elim k.fallback k.detailed

/-- The message with a pair of braces in the place of the detail. -/
def template (k : DiagnosticKind) : String := k.detailed "\x7b\x7d"

end DiagnosticKind

/-- A stretch of text that bears on a diagnostic, and how. -/
structure Related where
  span : Span
  message : String
  deriving DecidableEq, Repr

/-- Something that is wrong with a query. -/
structure Diagnostic where
  kind : DiagnosticKind
  /-- the stretch that is meant -/
  span : Span
  message : String
  related : List Related
  /-- what may help -/
  hints : List String
  deriving DecidableEq, Repr

namespace Diagnostic

/-- The diagnostic on one line. -/
def display (d : Diagnostic) : String :=
  "error at " ++ range d.span ++ ": " ++ d.message ++
    String.join (d.related.map fun r =>
      " (related: " ++ r.message ++ " at " ++ range r.span ++ ")") ++
    String.join (d.hints.map fun h => " (hint: " ++ h ++ ")")
where
  /-- The two ends of a span. -/
  range (s : Span) : String := toString s.start ++ ".." ++ toString s.stop

/-- Adds a diagnostic to those kept: it takes the place of the one with the same start if it is
more important than that one, and comes last if there is none. -/
def keep (d : Diagnostic) : List Diagnostic → List Diagnostic
  | [] => [d]
  | k :: ks =>
    if k.span.start = d.span.start then
      (if d.kind.suppresses k.kind then d else k) :: ks
    else k :: keep d ks

/-- One diagnostic for each place where some start, the most important, in the order of the
places. -/
def filtered (ds : List Diagnostic) : List Diagnostic :=
  (ds.foldl (fun kept d => keep d kept) []).mergeSort fun d e => d.span.start ≤ e.span.start

end Diagnostic

end SplQuery
