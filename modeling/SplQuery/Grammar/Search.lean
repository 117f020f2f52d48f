import SplQuery.Grammar.Parts

/-!
# Searches

Terms that an event must satisfy. Terms that stand side by side are joined by conjunction, with or
without `and`; `or` binds more strongly than that, and `not` most strongly.
-/

namespace SplQuery.Grammar

open SplQuery.Parser

/-- What a message says of the lexeme ahead: its text between backticks. -/
def ticked (text : String) : String := "\x60" ++ text ++ "\x60"

/-- `[ query ]`. Inside, the usage of the command around it is no hint. -/
def subsearch (below : Option Inner) : Parser Unit := do
  require (· == .lbracket)
  node .subsearch do
    pushOpener .lbracket
    bump
    inCommand none <| descend below false (·.pipeline)
    close .rbracket .unclosedSubsearch

/-- A value: the next lexeme with what is written directly after it. -/
def searchValue : Parser Unit := node .searchValue do
  bump
  gluedWhile Kind.isGlue

/-- The next value and the comma after it, if there is one. -/
def searchValueStep : Parser Bool := do
  unless ← isIn Kind.isGlue do return false
  searchValue
  eat .comma

/-- Values, a comma after each but the last. -/
def searchValues : Parser Unit := whileTrue searchValueStep

/-- A value, the comparison of a field with a value, or `field in (value, ...)`. -/
def searchValueTerm : Parser Unit := do
  let start ← mark
  searchValue
  let kind ← current
  if kind.any Kind.isComparison then
    wrapFrom start .searchComparison do
      bump
      if ← isIn Kind.isGlue then searchValue
      else reportWith .expectedValue "after comparison operator"
  else if kind == some (.clause .inWord) && (← isAhead .lparen) then
    wrapFrom start .searchIn do
      bump
      pushOpener .lparen
      bump
      searchValues
      close .rparen .unclosedParen
  else
    wrapFrom start .searchTerm (pure ())

/-- Whether no further term can start here. -/
def atSearchEnd (stop : Kind → Bool) : Parser Bool := do
  if ← atStageEnd then return true
  if ← isAt .rparen then return true
  isIn stop

/-- `( terms )`. -/
def searchGroup (below : Option Inner) : Parser Unit := node .searchGroup do
  pushOpener .lparen
  bump
  descend below true (·.searchTerms)
  close .rparen .unclosedParen

/-- A term without operators. -/
def searchPrimary (below : Option Inner) (stop : Kind → Bool) : Parser Unit := do
  if ← atSearchEnd stop then
    report .expectedExpression
  else
    match ← current with
    | some .lparen => searchGroup below
    | some .lbracket => subsearch below
    | some .macroCall => single .searchMacro
    | some (.clause .or) | some (.clause .and) =>
      refuseWith .expectedExpression ("before " ++ ticked (← currentText))
    | kind =>
      if kind.any Kind.isGlue then searchValueTerm
      else refuseWith .unexpectedToken (ticked (← currentText))

/-- A term, or a negation of one. -/
def searchNot (below : Option Inner) (stop : Kind → Bool) : Parser Unit := do
  if ← isAt (.clause .not) then
    node .searchNot do
      bump
      descend below true (·.searchNot stop)
  else
    searchPrimary below stop

/-- The next `or` and the term after it, if there is one. -/
def orStep (below : Option Inner) (stop : Kind → Bool) : Parser Bool := do
  if ← eat (.clause .or) then
    searchNot below stop
    return true
  return false

/-- Terms joined by `or`. -/
def searchOr (below : Option Inner) (stop : Kind → Bool) : Parser Unit := do
  let start ← mark
  searchNot below stop
  if ← isAt (.clause .or) then
    wrapFrom start .searchOr (whileTrue (orStep below stop))

/-- The next term or `and`, if there is one. -/
def termStep (below : Option Inner) (stop : Kind → Bool) : Parser Bool := do
  if ← atSearchEnd stop then return false
  unless ← eat (.clause .and) do searchOr below stop
  return true

/-- Terms side by side, up to where no further one can start. -/
def searchTerms (below : Option Inner) (stop : Kind → Bool) : Parser Unit :=
  whileTrue (termStep below stop)

/-- A whole search, up to the end of the stage, a closing parenthesis or the class `stop`. -/
def searchExpr (below : Option Inner) (stop : Kind → Bool) : Parser Unit :=
  node .searchExpr (searchTerms below stop)

/-- `where search`, up to the class `stop`. -/
def whereClause (below : Option Inner) (stop : Kind → Bool) : Parser Unit := node .whereClause do
  bump
  searchExpr below stop

end SplQuery.Grammar
