import SplQuery.Grammar.Expression

/-!
# Commands that extract and look up

The arguments of `rex`, `regex`, `lookup` and `inputlookup`.
-/

namespace SplQuery.Grammar

open SplQuery.Parser

/-- `[options] "pattern" [options]`. -/
def rexBody : Parser Unit := do
  let hasPattern ← loop false fun hasPattern => do
    if ← atStageEnd then return .done hasPattern
    if ← atOption then
      optionArg
      return .yield hasPattern
    if ← pure !hasPattern <&&> isAt .stringLiteral then
      bump
      return .yield true
    return .done hasPattern
  unless hasPattern do reportWith .expectedString "regular expression"

/-- A pattern, quoted or not. -/
def regexPattern : Parser Unit := do
  match ← current with
  | some .stringLiteral => bump
  | kind =>
    if kind.any Kind.isGlue then argument
    else reportWith .expectedString "regular expression"

/-- `[field=|field!=] "pattern"`. The lexeme directly after the field is taken for the operator. -/
def regexBody : Parser Unit := do
  if ← isIn Kind.isWord then
    if (← ahead).any fun k => k == .equals || k == .notEquals then
      bump
      bump
  regexPattern

/-- What starts the fields that a lookup gives. -/
def startsOutput (k : Kind) : Bool := k matches .clause .output | .clause .outputnew

/-- `output field [as name], ...` or `outputnew field [as name], ...`. -/
def outputClause : Parser Unit := node .outputClause do
  bump
  if (← aliasedFieldList nowhere) == 0 then
    reportWith .expectedField "lookup output field"

/-- `[options] table field [as name], ... [output|outputnew field [as name], ...]`. -/
def lookupBody : Parser Unit := do
  options
  if ← isIn Kind.isGlue then
    argument
    if (← aliasedFieldList startsOutput) == 0 then
      reportWith .expectedField "lookup input field"
    options
    if ← isIn startsOutput then outputClause
  else
    reportWith .expectedValue "lookup table name"

/-- `[options] table [options] [where search]`. -/
def inputlookupBody (below : Option Inner) : Parser Unit := do
  options
  if ← isIn Kind.isGlue <&&> notM (isAt (.command .whereWord)) then argument
  else reportWith .expectedValue "lookup table name"
  options
  if ← isAt (.command .whereWord) then whereClause below nowhere

end SplQuery.Grammar
