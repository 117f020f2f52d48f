import SplQuery.Grammar.Expression

/-!
# Commands that compute fields

The arguments of `eval`, `fieldformat`, `convert`, `replace`, `strcat` and `trendline`.
-/

namespace SplQuery.Grammar

open SplQuery.Parser

/-- `field = expression`. -/
def assignment (below : Option Inner) : Parser Unit := node .assignment do
  fieldItem
  if ← expect .equals "=" then expression below

/-- `field = expression, ...`. A comma may be missing where the next assignment is plain to see. -/
def evalBody (below : Option Inner) : Parser Unit := do
  let _ ← loop 0 fun count => do
    unless ← isIn Kind.startsField do
      if count == 0 then reportWith .expectedField "for assignment target"
      return .done count
    assignment below
    if ← eat .comma then return .yield (count + 1)
    return if ← atOption then .yield (count + 1) else .done (count + 1)

/-- `fn(field) [as name] ...`. -/
def convertBody : Parser Unit := do
  let conversions ← loop 0 fun count => do
    if ← atStageEnd then return .done count
    if ← eat .comma then return .yield count
    if ← atOption then
      optionArg
      return .yield count
    if ← atFieldCall then
      fieldCall
      return .yield (count + 1)
    return .done count
  if conversions == 0 then reportWith .expectedField "conversion like \x60num(field)\x60"

/-- `old with new`. -/
def replacement : Parser Unit := node .replacePair do
  argument
  if ← expect (.clause .withWord) "with" then
    if ← isIn Kind.isGlue then argument
    else reportWith .expectedValue "after \x60with\x60"

/-- `old with new, ... [in field, ...]`. -/
def replaceBody : Parser Unit := do
  let pairs ← loop 0 fun count => do
    if ← atStageEnd <||> isAt (.clause .inWord) then return .done count
    if ← eat .comma then return .yield count
    unless ← isIn Kind.isGlue do return .done count
    replacement
    return .yield (count + 1)
  if pairs == 0 then reportWith .expectedValue "\x60old WITH new\x60"
  if ← eat (.clause .inWord) then
    if (← fieldList nowhere) == 0 then reportWith .expectedField "after \x60in\x60"

/-- `[options] source ... target`, where a source is a field or a text in double quotes. -/
def strcatBody : Parser Unit := do
  let items ← loop 0 fun count => do
    if ← atStageEnd then return .done count
    if ← eat .comma then return .yield count
    let kind ← current
    if ← atOption then
      optionArg
      return .yield count
    if kind == some .stringLiteral && Text.beginsWith '"' (← currentText) then
      single .literal
      return .yield (count + 1)
    if kind.any Kind.startsField then
      fieldItem
      return .yield (count + 1)
    return .done count
  if items < 2 then reportWith .expectedField "source fields and a destination field"

/-- `fn(field) [as name] ...`, without options. -/
def trendlineBody : Parser Unit := do
  let trends ← loop 0 fun count => do
    if ← atStageEnd then return .done count
    if ← eat .comma then return .yield count
    unless ← atFieldCall do return .done count
    fieldCall
    return .yield (count + 1)
  if trends == 0 then reportWith .expectedField "trend like \x60sma5(field)\x60"

end SplQuery.Grammar
