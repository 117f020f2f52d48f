import SplQuery.Grammar.State

/-!
# Parts that many commands share

Options, field names and lists of them, values written without spaces, and the clauses `by` and
`over`.
-/

namespace SplQuery.Grammar

open SplQuery.Parser

/-! ## Values -/

/-- A parenthesised group with whatever it holds, up to the end of the stage. -/
def balancedParens : Parser Unit := do
  require (· == .lparen)
  pushOpener .lparen
  bump
  let _ ← loop 0 fun depth => do
    let step (depth : Nat) : Parser (ForInStep Nat) := do
      bump
      return .yield depth
    match ← current with
    | none | some .pipe | some .rbracket => return .done depth
    | some .rparen => if depth == 0 then return .done depth else step (depth - 1)
    | some .lparen => step (depth + 1)
    | some _ => step depth
  close .rparen .unclosedParen

/-- The lexemes of a class that are written directly after the lexeme just read. -/
def gluedWhile (member : Kind → Bool) : Parser Unit := whileTrue do
  unless ← glued do return false
  if (← adjacent).any member then
    bump
    return true
  return false

/-- Everything that is written directly after the lexeme just read, groups in parentheses
included. -/
def gluedMore : Parser Unit := whileTrue do
  unless ← glued do return false
  match ← adjacent with
  | some .lparen =>
    balancedParens
    return true
  | some k =>
    if k.isGlue then
      bump
      return true
    return false
  | none => return false

/-- The next lexeme and everything that is written directly after it. -/
def gluedRun : Parser Unit := do
  if ← isAt .lparen then balancedParens else bump
  gluedMore

/-- A single value. -/
def argument : Parser Unit := node .argument gluedRun

/-! ## Options -/

/-- Whether an option starts here: a word before an equals sign. -/
def atOption : Parser Bool := do
  if ← isIn Kind.isWord then isAhead .equals else return false

/-- An option: a name, an equals sign and a value. -/
def optionArg : Parser Unit := node .optionArg do
  bump
  let _ ← expect .equals "="
  node .optionValue do
    if ← isIn Kind.isGlue <||> isAt .lparen then gluedRun
    else reportWith .expectedValue "after \x60=\x60"

/-- Options, as many as there are. -/
def options : Parser Unit := whileTrue do
  if ← atOption then
    optionArg
    return true
  return false

/-! ## Fields -/

/-- A field name: a word, a pattern or a quoted name, with what is written directly after it. -/
def fieldItem : Parser Unit := node .fieldItem do
  bump
  gluedWhile Kind.continuesField

/-- A field name, or a note that it is missing. -/
def fieldOr (missing : String) : Parser Unit := do
  if ← isIn Kind.startsField then fieldItem
  else reportWith .expectedField missing

/-- The name after `as`. -/
def aliasName : Parser Unit := fieldOr "after \x60as\x60"

/-- A field name and, after `as`, another name for it. -/
def aliasedField : Parser Unit := do
  let start ← mark
  fieldItem
  if ← isAt (.clause .as) then
    wrapFrom start .aliasedField do
      bump
      aliasName

/-- Items that start like field names, commas between them optional, up to the end of the stage, an
option or a lexeme of the class `stop`. Answers the number of items. -/
def fieldListOf (item : Parser Unit) (stop : Kind → Bool) : Parser Nat :=
  node .fieldList <| loop 0 fun count => do
    if ← atStageEnd <||> isIn stop <||> atOption then return .done count
    let kind ← current
    if kind == some .comma then
      bump
      return .yield count
    if kind.any Kind.startsField then
      item
      return .yield (count + 1)
    return .done count

/-- A list of field names. -/
def fieldList : (Kind → Bool) → Parser Nat := fieldListOf fieldItem

/-- A list of field names that may be given other names. -/
def aliasedFieldList : (Kind → Bool) → Parser Nat := fieldListOf aliasedField

/-- The class without members: a list that only the end of the stage or an option ends. -/
def nowhere (_ : Kind) : Bool := false

/-- `fn(field)` and, after `as`, a name for the result. -/
def fieldCall : Parser Unit := node .fieldCall do
  bump
  pushOpener .lparen
  let _ ← expect .lparen "("
  if ← isIn Kind.startsField then fieldItem
  close .rparen .unclosedParen
  if ← eat (.clause .as) then aliasName

/-- Whether a call starts here: a word before a parenthesis. -/
def atFieldCall : Parser Bool := do
  if ← isIn Kind.isWord then isAhead .lparen else return false

/-- A number by itself. -/
def numberLiteral : Parser Unit := single .literal

/-- A number by itself, if there is one. -/
def leadingNumber : Parser Unit := do
  if ← isAt .numberLiteral then numberLiteral

/-! ## Clauses -/

/-- `by` or `groupby` and a list of fields. -/
def byClause : Parser Unit := node .byClause do
  bump
  if (← fieldList Kind.endsFieldList) == 0 then
    reportWith .expectedField "after \x60by\x60"

/-- `over` and a field. -/
def overClause : Parser Unit := node .overClause do
  bump
  fieldOr "after \x60over\x60"

end SplQuery.Grammar
