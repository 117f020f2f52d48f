import SplQuery.Grammar.Expression

/-!
# Commands that select events and fields

The arguments of `search`, `where`, `table`, `fields`, `dedup`, `sort`, `head` and `rename`.
-/

namespace SplQuery.Grammar

open SplQuery.Parser

/-- `search terms`. -/
def searchBody (below : Option Inner) : Parser Unit := searchExpr below nowhere

/-- `where expression`. -/
def whereBody (below : Option Inner) : Parser Unit := do
  if ← atStageEnd then report .expectedExpression else expression below

/-- `table field, ...`. -/
def tableBody : Parser Unit := do
  if (← fieldList nowhere) == 0 then report .expectedField

/-- A sign in front of a field, if there is one. -/
def direction : Parser Unit := do
  if ← isAt .plus <||> isAt .minus then bump

/-- `fields [+|-] field, ...`. -/
def fieldsBody : Parser Unit := do
  direction
  tableBody

/-- What a field to sort by may start with. -/
def startsSortField (k : Kind) : Bool := k == .plus || k == .minus || k.startsField

/-- Whether something to sort by starts here. -/
def atSortField : Parser Bool := isIn startsSortField

/-- A field to sort by, with a sign and a function if they are given. -/
def sortField : Parser Unit := node .sortField do
  direction
  if ← atFieldCall then fieldCall
  else fieldOr "after sort direction"

/-- Consecutive fields to sort by. Answers their number. -/
def sortFields : Parser Nat := loop 0 fun count => do
  if ← eat .comma then return .yield count
  if ← atStageEnd <||> atOption <||> notM atSortField then return .done count
  sortField
  return .yield (count + 1)

/-- `dedup [number] field, ... [options] [sortby field ...]`. -/
def dedupBody : Parser Unit := do
  leadingNumber
  let fields ← loop 0 fun count => do
    if ← atStageEnd then return .done count
    let kind ← current
    if kind == some .comma then
      bump
      return .yield count
    if ← atOption then
      optionArg
      return .yield count
    if kind == some (.clause .sortby) then
      bump
      let _ ← sortFields
      return .yield count
    if kind.any Kind.startsField then
      return .yield (count + (← fieldList Kind.endsFieldList))
    return .done count
  if fields == 0 then report .expectedField

/-- `sort [number] [+|-]field ...`. -/
def sortBody : Parser Unit := do
  leadingNumber
  let fields ← loop 0 fun count => do
    if ← atStageEnd then return .done count
    if ← eat .comma then return .yield count
    if ← atOption then
      optionArg
      return .yield count
    if count > 0 then
      unless ← atSortField do return .done count
    let count := count + (← sortFields)
    return if count == 0 then .done count else .yield count
  if fields == 0 then report .expectedField

/-- How far the arguments of `head` have come. -/
structure HeadParts where
  hasLimit : Bool
  hasCondition : Bool

/-- `head [number] [options] [expression]`. A number is the limit unless an operator follows. -/
def headBody (below : Option Inner) : Parser Unit := do
  let _ ← loop (⟨false, false⟩ : HeadParts) fun seen => do
    if ← atStageEnd then return .done seen
    if ← atOption then
      optionArg
      return .yield seen
    let kind ← current
    if !seen.hasLimit && !seen.hasCondition && kind == some .numberLiteral then
      unless (← ahead).any Kind.isInfix do
        numberLiteral
        return .yield { seen with hasLimit := true }
    if seen.hasCondition || seen.hasLimit then return .done seen
    expression below
    return .yield { seen with hasCondition := true }

/-- `old as new`. -/
def renamePair : Parser Unit := node .renamePair do
  fieldItem
  if ← expect (.clause .as) "as" then aliasName

/-- `rename old as new, ...`. -/
def renameBody : Parser Unit := do
  let pairs ← loop 0 fun count => do
    if ← eat .comma then return .yield count
    if ← atStageEnd then return .done count
    unless ← isIn Kind.startsField do return .done count
    renamePair
    return .yield (count + 1)
  if pairs == 0 then report .expectedField

end SplQuery.Grammar
