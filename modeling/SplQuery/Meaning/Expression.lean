import SplQuery.Meaning.Basic

/-!
# What expressions mean

An operand that is missing is left out: what is left of an operator with one operand is that
operand.
-/

namespace SplQuery.Meaning

/-- An operator as an expression names it: a word in lower case, a sign as it is. -/
def operatorName (l : Lexeme) : String := if l.kind.isKeyword then l.text.toLower else l.text

/-- Two operands and an operator between them, or the one operand that there is. -/
def binary (node : Placed) (parts : List Part) : Option Expression := do
  let op ← node.firstLexeme?
  let operands := expressionParts parts
  match operands[0]?.bind (·.expression?), operands[1]?.bind (·.expression?) with
  | some left, some right => some (.binary (operatorName op) left right node.core)
  | some operand, none | none, some operand => some operand
  | none, none => none

/-- A sign and its operand. -/
def unary (node : Placed) (parts : List Part) : Option Expression := do
  let op ← node.firstLexeme?
  let operand ← firstExpression? parts
  return .unary (operatorName op) operand node.core

/-- The arguments between parentheses. -/
def arguments (parts : List Part) : List Expression :=
  (expressionParts parts).filterMap (·.expression?)

/-- The call of a function. -/
def call (node : Placed) (parts : List Part) : Option Expression := do
  let name ← node.firstLexeme?
  return .call name.text.toLower ((part? .argList parts).elim [] (·.expressions)) node.core

/-- The name of a field, between quotes or not. -/
def field (node : Placed) : Option Expression :=
  node.firstLexeme?.map fun l =>
    .field ⟨if l.kind = .stringLiteral then Text.unquote l.text else l.text, node.core⟩

/-- A value. -/
def literalOf (l : Lexeme) : Expression :=
  match l.kind with
  | .numberLiteral => .number l.text l.span
  | .booleanLiteral => .boolean (Text.sameName l.text "true") l.span
  | .timeModifier => .time l.text l.span
  | .stringLiteral => .string (Text.unquote l.text) l.span
  | _ => .string l.text l.span

/-- A node that is an expression. -/
def expression? (node : Placed) (parts : List Part) : Shape → Option Expression
  | .binaryExpr => binary node parts
  | .unaryExpr => unary node parts
  | .parenExpr => firstExpression? parts
  | .callExpr => call node parts
  | .inList => some (.call "in" (arguments parts) node.core)
  | .fieldRef => field node
  | .literal => node.firstLexeme?.map literalOf
  | _ => none

/-- A field and what it is computed from. -/
def assignment? (node : Placed) (parts : List Part) : Option Assignment := do
  let target ← node.node? .fieldItem
  let e ← firstExpression? parts
  return ⟨target.value, e, node.core⟩

/-- The text between two parentheses, blanks left aside; either may be missing. -/
def betweenParens (text : String) : String :=
  let cs := match text.toList with
    | '(' :: cs => cs
    | cs => cs
  Text.trim (String.ofList (if cs.getLast? = some ')' then cs.dropLast else cs))

/-- An aggregation. -/
def aggregation? (node : Placed) (parts : List Part) : Option Aggregation := do
  let name ← node.firstLexeme?
  let list := part? .argList parts
  return {
    function := name.text.toLower
    arguments := list.elim [] (·.expressions)
    argumentText := list.map fun p => betweenParens p.tree.text
    newName := (node.node? .fieldItem).map (·.value)
    span := node.core }

end SplQuery.Meaning
