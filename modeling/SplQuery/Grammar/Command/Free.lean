import SplQuery.Grammar.Search

/-!
# Free arguments

Commands whose arguments follow no rule of their own take options, values, clauses and nested
queries in any order.
-/

namespace SplQuery.Grammar

open SplQuery.Parser

/-- A value and, after `as`, another name for it. -/
def aliasedArgument : Parser Unit := do
  let start ← mark
  argument
  if ← isAt (.clause .as) then
    wrapFrom start .aliasedField do
      bump
      if ← isIn Kind.isGlue then argument
      else reportWith .expectedField "after \x60as\x60"

/-- One of the arguments that start with a lexeme of a kind. -/
def freeArgument (below : Option Inner) : Kind → Parser Unit
  | .lbracket => subsearch below
  | .comma => bump
  | .clause .byWord | .clause .groupby => byClause
  | .clause .over => overClause
  | .rparen => refuse .unmatchedParen
  | kind => do
    if kind.isWord then
      if ← isAhead .equals then return ← optionArg
    if kind.isGlue || kind == .lparen then aliasedArgument
    else refuseWith .unexpectedToken (ticked (← currentText))

/-- Arguments in any order, up to the end of the stage. -/
def argumentList (below : Option Inner) : Parser Unit := whileTrue do
  if ← atStageEnd then return false
  match ← current with
  | none => return false
  | some kind =>
    freeArgument below kind
    return true

end SplQuery.Grammar
