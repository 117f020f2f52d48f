import SplQuery.Grammar.Search
import SplQuery.Text.Quoted

/-!
# Expressions

Operators bind with the strengths of `strength?`; those of equal strength group to the left. The
signs `not` and `-` in front bind more strongly than every operator between.
-/

namespace SplQuery.Grammar

open SplQuery.Parser

/-- How strongly an operator holds its left and its right operand. -/
def strength? : Kind → Option (Nat × Nat)
  | .clause .or => some (1, 2)
  | .clause .xor => some (3, 4)
  | .clause .and => some (5, 6)
  | .equals | .doubleEquals | .notEquals | .lessThan | .lessEquals | .greaterThan
  | .greaterEquals | .clause .like | .clause .inWord => some (7, 8)
  | .plus | .minus | .dot => some (9, 10)
  | .multiply | .divide | .modulo => some (11, 12)
  | _ => none

/-- How strongly a sign in front holds its operand. -/
def signStrength : Nat := 13

/-- An expression whose operators hold their left operands at least so strongly. -/
def expressionFrom (below : Option Inner) (least : Nat) : Parser Unit :=
  descend below true (·.expression least)

/-- An expression. -/
def expression (below : Option Inner) : Parser Unit := expressionFrom below 0

/-- The next argument and the comma after it, if there is one. -/
def argumentStep (below : Option Inner) : Parser Bool := do
  expression below
  eat .comma

/-- `( expression, ... )`. -/
def parenArguments (below : Option Inner) : Parser Unit := do
  pushOpener .lparen
  let _ ← expect .lparen "("
  unless ← isAt .rparen do
    unless ← atStageEnd do
      whileTrue (argumentStep below)
  close .rparen .unclosedParen

/-- Whether the call of a function starts here. The names `now`, `true` and `false` are values
elsewhere. -/
def atCallee : Parser Bool := do
  let kind ← current
  let text ← currentText
  if kind.any Kind.isWord || kind == some .booleanLiteral ||
      (kind == some .timeModifier && Text.sameName text "now") then
    isAhead .lparen
  else return false

/-- `name(expression, ...)`. -/
def callExpr (below : Option Inner) : Parser Unit := node .callExpr do
  bump
  node .argList (parenArguments below)

/-- An operand without a sign. -/
def operand (below : Option Inner) : Parser Unit := do
  if ← atCallee then
    callExpr below
  else
    match ← current with
    | some .lparen => node .parenExpr do
      pushOpener .lparen
      bump
      expression below
      close .rparen .unclosedParen
    | some .stringLiteral =>
      single (if Text.beginsWith '\'' (← currentText) then .fieldRef else .literal)
    | some .numberLiteral | some .timeModifier | some .booleanLiteral | some .macroCall =>
      single .literal
    | some .multiply | some .wildcardField => single .fieldRef
    | some .comma | some .rparen => report .expectedExpression
    | kind =>
      if kind.any Kind.isWord then single .fieldRef
      else if ← atStageEnd then report .expectedExpression
      else refuseWith .expectedExpression ("found " ++ ticked (← currentText))

/-- An operand with the signs in front of it. -/
def signedOperand (below : Option Inner) : Parser Unit := do
  match ← current with
  | some (.clause .not) | some .minus => node .unaryExpr do
    bump
    expressionFrom below signStrength
  | _ => operand below

/-- The next operator and its right operand, if the operator holds its left operand at least so
strongly. The left operand is what was put into the tree since `start`. -/
def operatorStep (below : Option Inner) (least start : Nat) : Parser Bool := do
  match ← current with
  | none => return false
  | some kind =>
    match strength? kind with
    | none => return false
    | some (left, right) =>
      if left < least then return false
      if kind = .clause .inWord then
        unless ← isAhead .lparen do return false
        wrapFrom start .inList do
          bump
          parenArguments below
      else
        wrapFrom start .binaryExpr do
          bump
          expressionFrom below right
      return true

/-- An operand and the operators after it, each holding its left operand at least so strongly. -/
def operators (below : Option Inner) (least : Nat) : Parser Unit := do
  let start ← mark
  signedOperand below
  whileTrue (operatorStep below least start)

end SplQuery.Grammar
