import SplQuery.Lexeme.Token
import SplQuery.Pattern.Basic
import SplQuery.Text.Characters

/-!
# How far a value reaches

For each sort of parameter, how many of the tokens ahead a value of that sort takes. The counts
agree with what the grammar consumes for a field, a glued value or an expression.
-/

namespace SplQuery

namespace Extent

open Text

/-- Whether a token is written directly after another. -/
def touches (before after : Token) : Bool := after.start == before.stop

/-- The texts of tokens, with a space where the query has trivia between them. -/
def joinText : List Token → String
  | [] => ""
  | [t] => t.text
  | t :: u :: rest => t.text ++ (if touches t u then "" else " ") ++ joinText (u :: rest)

/-- How many tokens close the groups that are open, `depth` of them. -/
def closing (opener closer : Kind) (depth : Nat) : List Token → Option Nat
  | [] => none
  | t :: ts =>
    if t.kind = opener then (closing opener closer (depth + 1) ts).map (· + 1)
    else if t.kind = closer then
      if depth ≤ 1 then some 1 else (closing opener closer (depth - 1) ts).map (· + 1)
    else (closing opener closer depth ts).map (· + 1)

/-- How many tokens a balanced group takes. -/
def group? (opener closer : Kind) : List Token → Option Nat
  | [] => none
  | t :: ts => if t.kind = opener then (closing opener closer 1 ts).map (· + 1) else none

/-- How many tokens a parenthesised group takes. -/
def paren? : List Token → Option Nat := group? .lparen .rparen

/-- How many tokens a bracketed query takes. -/
def bracket? : List Token → Option Nat := group? .lbracket .rbracket

/-- How many tokens follow `before` without a space, each of a given class. -/
def glued (continues : Kind → Bool) (before : Token) : List Token → Nat
  | [] => 0
  | t :: ts => if touches before t && continues t.kind then glued continues t ts + 1 else 0

/-- How many tokens a run of tokens takes, the first and the others of given classes. -/
def run? (starts continues : Kind → Bool) : List Token → Option Nat
  | [] => none
  | t :: ts => if starts t.kind then some (glued continues t ts + 1) else none

/-- How many tokens of a value follow `before` without a space, parenthesised groups counted
whole; `none` when a group is not closed. -/
def valueRest (before : Token) : List Token → Option Nat
  | [] => some 0
  | t :: ts =>
    if !touches before t then some 0
    else if t.kind = .lparen then do
      let n ← closing .lparen .rparen 1 ts
      let rest ← valueRest ((ts.take n).getLastD t) (ts.drop n)
      return n + 1 + rest
    else if t.kind.isGlue then (valueRest t ts).map (· + 1)
    else some 0
termination_by ts => ts.length
decreasing_by all_goals simp; try omega

/-- How many tokens a value takes that is written without a space. -/
def value? : List Token → Option Nat
  | [] => none
  | t :: ts =>
    if t.kind = .lparen then do
      let n ← closing .lparen .rparen 1 ts
      let rest ← valueRest ((ts.take n).getLastD t) (ts.drop n)
      return n + 1 + rest
    else if t.kind.isGlue then (valueRest t ts).map (· + 1)
    else none

/-- How many tokens a name takes; a parenthesis ends it. -/
def name? : List Token → Option Nat := run? Kind.isGlue Kind.isGlue

/-- How many tokens a field name takes. -/
def field? : List Token → Option Nat := run? Kind.startsField Kind.continuesField

/-- Whether an option starts here. -/
def atOption : List Token → Bool
  | t :: u :: _ => t.kind.isWord && u.kind == .equals
  | _ => false

/-- How many further tokens a list of fields takes. -/
def fieldListRest (fuel : Nat) (ts : List Token) : Nat :=
  match fuel with
  | 0 => 0
  | fuel + 1 =>
    let commas := (ts.takeWhile (·.kind == .comma)).length
    let rest := ts.drop commas
    if atOption rest then 0
    else match field? rest with
      | some n => commas + n + fieldListRest fuel (rest.drop n)
      | none => 0

/-- How many tokens a list of fields takes. -/
def fieldList? (ts : List Token) : Option Nat :=
  if atOption ts then none
  else (field? ts).map fun n => n + fieldListRest ts.length (ts.drop n)

/-- Whether the call of a function starts here. The names `now`, `true` and `false` are values
elsewhere. -/
def atCall : List Token → Bool
  | t :: u :: _ =>
    (t.kind.isWord || t.kind == .booleanLiteral ||
      (t.kind == .timeModifier && sameName t.text "now")) && u.kind == .lparen
  | _ => false

/-- How many tokens an operand takes, the signs and negations before it included. -/
def operand? : List Token → Option Nat
  | [] => none
  | t :: ts =>
    if t.kind matches .clause .not | .minus | .plus then (operand? ts).map (· + 1)
    else if t.kind = .lparen then paren? (t :: ts)
    else if atCall (t :: ts) then (paren? ts).map (· + 1)
    else if t.kind.isWord || t.kind.isLiteral ||
        t.kind matches .wildcardField | .macroCall | .multiply then some 1
    else none

/-- How many tokens of an expression follow an operand. -/
def operatorsRest (fuel : Nat) (ts : List Token) : Nat :=
  match fuel, ts with
  | fuel + 1, t :: ts =>
    if !t.kind.isInfix then 0
    else
      let operand := if t.kind = .clause .inWord then paren? ts else operand? ts
      match operand with
      | some n => n + 1 + operatorsRest fuel (ts.drop n)
      | none => 0
  | _, _ => 0

/-- How many tokens an expression takes. -/
def expression? (ts : List Token) : Option Nat :=
  (operand? ts).map fun n => n + operatorsRest ts.length (ts.drop n)

/-- Every number of tokens that a search may take: up to each `by` outside all groups, and up to
the end of the stage. `count` tokens have been passed, inside so many groups. -/
def searches (count parens brackets : Nat) : List Token → List Nat
  | [] => upTo count
  | t :: ts =>
    match t.kind with
    | .pipe =>
      if brackets = 0 then upTo count
      else searches (count + 1) parens brackets ts
    | .rbracket =>
      if brackets = 0 then upTo count
      else searches (count + 1) parens (brackets - 1) ts
    | .lbracket => searches (count + 1) parens (brackets + 1) ts
    | .lparen => searches (count + 1) (parens + 1) brackets ts
    | .rparen => searches (count + 1) (parens - 1) brackets ts
    | .clause .byWord | .clause .groupby =>
      let rest := searches (count + 1) parens brackets ts
      if parens = 0 && brackets = 0 then upTo count ++ rest else rest
    | _ => searches (count + 1) parens brackets ts
where
  /-- A search takes at least one token. -/
  upTo (count : Nat) : List Nat := if count > 0 then [count] else []

/-- How many tokens the name of an aggregation takes, with its arguments if it has any. -/
def aggregation? : List Token → Option Nat
  | [] => none
  | t :: ts =>
    if !t.kind.startsAggregation then none
    else if ts.head?.any (·.kind == .lparen) then (paren? ts).map (· + 1)
    else some 1

/-- Whether a text is one of the spellings of a truth value. -/
def isTruthValue (s : String) : Bool :=
  ["true", "false", "t", "f", "1", "0", "yes", "no"].contains s.toLower

/-- How many tokens a truth value takes. -/
def truthValue? : List Token → Option Nat
  | [] => none
  | t :: ts =>
    if t.kind = .booleanLiteral then some 1
    else (value? (t :: ts)).filter fun n => isTruthValue (joinText ((t :: ts).take n))

/-- How many tokens a number takes; a minus directly before it belongs to it. -/
def number? : List Token → Option Nat
  | [] => none
  | t :: ts =>
    if t.kind = .numberLiteral then some 1
    else if t.kind = .minus && ts.head?.any (fun u => u.kind == .numberLiteral && touches t u) then
      some 2
    else none

/-- The numbers of tokens that a value of a sort may take, the least first. -/
def ofType (type : ParamType) (ts : List Token) : List Nat :=
  match type with
  | .field | .wildcardField => (field? ts).toList
  | .fieldList => (fieldList? ts).toList
  | .string => if ts.head?.any (·.kind == .stringLiteral) then [1] else []
  | .regex => if ts.head?.any (·.kind == .stringLiteral) then [1] else (value? ts).toList
  | .number => (number? ts).toList
  | .integer =>
    if ts.head?.any (fun t => t.kind == .numberLiteral && !t.text.contains '.') then [1] else []
  | .boolean => (truthValue? ts).toList
  | .timeSpan => (value? ts).toList
  | .expression => (expression? ts).toList
  | .searchExpression => searches 0 0 0 ts
  | .subsearch => (bracket? ts).toList
  | .aggregation => (aggregation? ts).toList
  | .name => (name? ts).toList
  | .any =>
    if ts.head?.any (·.kind == .lbracket) then (bracket? ts).toList else (value? ts).toList

end Extent

end SplQuery
