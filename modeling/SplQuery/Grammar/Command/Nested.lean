import SplQuery.Grammar.Search

/-!
# Commands around nested queries

The arguments of `foreach`, which has a query of its own, and of `return`, which hands values to
the query around it.
-/

namespace SplQuery.Grammar

open SplQuery.Parser

/-- How far the arguments of `foreach` have come. -/
structure ForeachParts where
  fields : Nat
  hasBody : Bool

/-- `[options] field ... [ query ]`. -/
def foreachBody (below : Option Inner) : Parser Unit := do
  let seen ← loop (⟨0, false⟩ : ForeachParts) fun seen => do
    if ← atStageEnd then return .done seen
    if seen.hasBody then return .done seen
    match ← current with
    | some .comma =>
      bump
      return .yield seen
    | some .lbracket =>
      subsearch below
      return .yield { seen with hasBody := true }
    | kind =>
      if ← atOption then
        optionArg
        return .yield seen
      if kind.any Kind.startsField then
        return .yield { seen with fields := seen.fields + (← fieldList Kind.endsFieldList) }
      return .done seen
  if seen.fields == 0 then report .expectedField
  else unless seen.hasBody do reportWith .expectedToken "["

/-- `[number] (field | name=field) ...`. -/
def returnBody : Parser Unit := do
  leadingNumber
  whileTrue do
    if ← atStageEnd then return false
    match ← current with
    | some .comma =>
      bump
      return true
    | kind =>
      if ← atOption then
        optionArg
        return true
      if kind.any Kind.startsField then
        fieldItem
        return true
      return false

end SplQuery.Grammar
