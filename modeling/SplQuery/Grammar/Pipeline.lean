import SplQuery.Grammar.Command.Aggregate
import SplQuery.Grammar.Command.Create
import SplQuery.Grammar.Command.Extract
import SplQuery.Grammar.Command.Filter
import SplQuery.Grammar.Command.Free
import SplQuery.Grammar.Command.Nested

/-!
# Queries

A query is a pipeline of stages. The first stage is a search unless it begins with the word of a
command; every other stage is a command. `parse` reads a whole query, nested ones included, down
to a given depth.
-/

namespace SplQuery.Grammar

open SplQuery.Parser

/-! ## Commands -/

/-- The shape of a command's node. -/
def shapeOf : CommandWord → Shape
  | .search => .searchCommand
  | .whereWord => .whereCommand
  | .eval => .evalCommand
  | .fieldformat => .fieldformatCommand
  | .stats | .eventstats | .streamstats | .chart | .timechart => .statsCommand
  | .tstats => .tstatsCommand
  | .rename => .renameCommand
  | .rex => .rexCommand
  | .regex => .regexCommand
  | .lookup => .lookupCommand
  | .inputlookup => .inputlookupCommand
  | .table => .tableCommand
  | .fields => .fieldsCommand
  | .dedup => .dedupCommand
  | .sort => .sortCommand
  | .head => .headCommand
  | .top | .rare => .topCommand
  | .convert => .convertCommand
  | .replace => .replaceCommand
  | .strcat => .strcatCommand
  | .trendline => .trendlineCommand
  | .returnWord => .returnCommand
  | .fit => .fitCommand
  | .foreach => .foreachCommand
  | _ => .keywordCommand

/-- The arguments of a command. -/
def bodyOf (below : Option Inner) : CommandWord → Parser Unit
  | .search => searchBody below
  | .whereWord => whereBody below
  | .eval | .fieldformat => evalBody below
  | .stats | .eventstats | .streamstats | .chart | .timechart => statsBody below
  | .tstats => tstatsBody below
  | .rename => renameBody
  | .rex => rexBody
  | .regex => regexBody
  | .lookup => lookupBody
  | .inputlookup => inputlookupBody below
  | .table => tableBody
  | .fields => fieldsBody
  | .dedup => dedupBody
  | .sort => sortBody
  | .head => headBody below
  | .top | .rare => topBody
  | .convert => convertBody
  | .replace => replaceBody
  | .strcat => strcatBody
  | .trendline => trendlineBody
  | .returnWord => returnBody
  | .fit => fitBody
  | .foreach => foreachBody below
  | _ => argumentList below

/-- Passes over what is left of a stage, and notes it. -/
def finishStage : Parser Unit := do
  unless ← atStageEnd do
    recover .unexpectedToken (ticked (← currentText))

/-- A command that begins with its word, which is ahead. -/
def command (below : Option Inner) (word : CommandWord) : Parser Unit := do
  require Kind.isWord
  require (· == .command word)
  inCommand (some word) do
    node (shapeOf word) do
      bump
      bodyOf below word
      finishStage

/-- A command that is not known; it may have any arguments. -/
def genericCommand (below : Option Inner) : Parser Unit := inCommand none do
  node .genericCommand do
    bump
    argumentList below
    finishStage

/-! ## Stages -/

/-- The first stage. A command's word in front of a comparison is the name of a field. -/
def firstStage (below : Option Inner) : Parser Unit := do
  match ← current with
  | some (.command word) =>
    if (← ahead).any Kind.isComparison then searchExpr below nowhere
    else command below word
  | _ => searchExpr below nowhere

/-- A stage after a pipe. -/
def stage (below : Option Inner) : Parser Unit := do
  match ← current with
  | some (.command word) => command below word
  | some .identifier | some (.clause .fromWord) => genericCommand below
  | none | some .pipe | some .rbracket => report .expectedCommand
  | some _ => recover .expectedCommand ("found " ++ ticked (← currentText))

/-- The stages after the first one. Nested ones end at the closing bracket; elsewhere a closing
bracket is noted and passed over. -/
def stages (below : Option Inner) (nested : Bool) : Parser Unit := whileTrue do
  match ← current with
  | none => return false
  | some .rbracket =>
    if nested then return false
    refuse .unmatchedBracket
    return true
  | some .pipe =>
    bump
    stage below
    return true
  | some _ =>
    recover .unexpectedToken (ticked (← currentText))
    return true

/-- A pipeline. -/
def pipeline (below : Option Inner) (nested : Bool) : Parser Unit := node .pipeline do
  unless ← atStageEnd do
    firstStage below
  stages below nested

/-- What may be parsed below a level from which it is so many levels to the limit. -/
def belowAt : Nat → Option Inner
  | 0 => none
  | n + 1 => some {
    pipeline := fun s => pipeline (belowAt n) true s
    searchNot := fun stop s => searchNot (belowAt n) stop s
    searchTerms := fun s => searchTerms (belowAt n) nowhere s
    expression := fun least s => operators (belowAt n) least s }

/-- A whole query. -/
def query (limit : Nat) : Parser Unit := node .root do
  pipeline (belowAt limit) false
  eatTrivia

end SplQuery.Grammar

namespace SplQuery

/-- How deep queries may be nested unless something else is asked for. -/
def defaultLimit : Nat := 128

/-- What a parse gives: always a tree, and what was found wrong, in the order in which it was
noted. -/
structure Parse where
  tree : Tree
  diagnostics : List Diagnostic
  deriving Repr

namespace Parse

/-- The state at the end of a parse of the lexemes of a text with `stop` bytes. -/
def finalState (lexemes : List Lexeme) (stop limit : Nat) : State :=
  ((do Grammar.query limit; Parser.eatTrivia).run (State.start lexemes stop)).2

/-- Parses lexemes, nested at most `limit` levels deep. -/
def ofLexemes (lexemes : List Lexeme) (stop limit : Nat) : Parse :=
  let s := finalState lexemes stop limit
  ⟨s.built.head?.getD (.node .root []), s.reports.reverse⟩

end Parse

/-- Parses a query, nested at most `limit` levels deep. -/
def parseTree (text : String) (limit : Nat) : Parse :=
  .ofLexemes (lex text) text.utf8ByteSize limit

end SplQuery
