import SplQuery.Grammar.Expression

/-!
# Commands that aggregate

The arguments of the `stats` family, `tstats`, `top` and `rare`, and `fit`.
-/

namespace SplQuery.Grammar

open SplQuery.Parser

/-- `fn [(expression, ...)] [as name]`. -/
def aggregation (below : Option Inner) : Parser Unit := node .aggregation do
  bump
  if ← isAt .lparen then node .argList (parenArguments below)
  if ← eat (.clause .as) then aliasName

/-- `[options] aggregation, ... [over field] [by field, ...]`, in any order. -/
def statsBody (below : Option Inner) : Parser Unit := do
  let aggregations ← loop 0 fun count => do
    if ← atStageEnd then return .done count
    match ← current with
    | some .comma =>
      bump
      return .yield count
    | some (.clause .byWord) | some (.clause .groupby) =>
      byClause
      return .yield count
    | some (.clause .over) =>
      overClause
      return .yield count
    | kind =>
      if ← atOption then
        optionArg
        return .yield count
      if kind.any Kind.startsAggregation then
        aggregation below
        return .yield (count + 1)
      return .done count
  if aggregations == 0 then report .expectedAggregation

/-- `from name=value` or `from name`. -/
def fromSource : Parser Unit := node .fromClause do
  bump
  if ← atOption then optionArg
  else if ← isIn Kind.isGlue then argument
  else reportWith .expectedValue "after \x60from\x60"

/-- What ends the search of a `where` clause. -/
def endsWhere (k : Kind) : Bool := k matches .clause .byWord | .clause .groupby

/-- `[options] aggregation ... [from source] [where search] [by field, ...]`, in any order. -/
def tstatsBody (below : Option Inner) : Parser Unit := do
  let aggregations ← loop 0 fun count => do
    if ← atStageEnd then return .done count
    match ← current with
    | some .comma =>
      bump
      return .yield count
    | some (.clause .fromWord) =>
      fromSource
      return .yield count
    | some (.command .whereWord) =>
      whereClause below endsWhere
      return .yield count
    | some (.clause .byWord) | some (.clause .groupby) =>
      byClause
      return .yield count
    | kind =>
      if ← atOption then
        optionArg
        return .yield count
      if kind.any Kind.startsAggregation then
        aggregation below
        return .yield (count + 1)
      return .done count
  if aggregations == 0 then report .expectedAggregation

/-- `[number] [options] field, ... [by field, ...]`, in any order after the number. -/
def topBody : Parser Unit := do
  leadingNumber
  let fields ← loop 0 fun count => do
    if ← atStageEnd then return .done count
    match ← current with
    | some .comma =>
      bump
      return .yield count
    | some (.clause .byWord) | some (.clause .groupby) =>
      byClause
      return .yield count
    | kind =>
      if ← atOption then
        optionArg
        return .yield count
      if kind.any Kind.startsField then
        return .yield (count + (← fieldList Kind.endsFieldList))
      return .done count
  if fields == 0 then report .expectedField

/-- `from field, ...`, where a model's features are listed. -/
def featuresClause : Parser Unit := node .fromClause do
  bump
  if (← fieldList Kind.endsFieldList) == 0 then reportWith .expectedField "after \x60from\x60"

/-- `into name`. -/
def intoClause : Parser Unit := node .intoClause do
  bump
  if ← isIn Kind.isGlue then argument
  else reportWith .expectedValue "model name after \x60into\x60"

/-- The arguments of `fit` after the algorithm, in any order. -/
def fitArguments : Parser Unit := whileTrue do
  if ← atStageEnd then return false
  match ← current with
  | some .comma =>
    bump
    return true
  | some (.clause .fromWord) =>
    featuresClause
    return true
  | some (.clause .into) =>
    intoClause
    return true
  | some (.clause .as) =>
    bump
    aliasName
    return true
  | kind =>
    if ← atOption then
      optionArg
      return true
    if kind.any Kind.startsField then
      let _ ← fieldList Kind.endsFieldList
      return true
    return false

/-- `algorithm [options] field ... [from field ...] [into model] [as name]`. -/
def fitBody : Parser Unit := do
  if ← isIn Kind.isWord <&&> notM atOption then
    argument
    fitArguments
  else
    reportWith .expectedValue "algorithm name"

end SplQuery.Grammar
