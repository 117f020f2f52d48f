import SplQuery.Meaning.Basic

/-!
# What searches mean

A value is the text as it is written, or what stands between the quotes when it is one quoted
text.
-/

namespace SplQuery.Meaning

/-- The quoted text that a value consists of. -/
def quotedValue? (node : Placed) : Option Lexeme :=
  match node.lexemes with
  | [l] => if l.kind = .stringLiteral then some l else none
  | _ => none

/-- The text of a value. -/
def searchText (node : Placed) : String :=
  match quotedValue? node with
  | some l => Text.unquote l.text
  | none => node.text

/-- The text before a character and the one after it. -/
def splitAt? (c : Char) (cs : List Char) : Option (List Char × List Char) :=
  match cs.dropWhile (· ≠ c) with
  | [] => none
  | _ :: rest => some (cs.takeWhile (· ≠ c), rest)

/-- The stretches of a text between the places where a character stands. -/
def splitOn (c : Char) : List Char → List (List Char)
  | [] => [[]]
  | d :: ds =>
    if d = c then [] :: splitOn c ds
    else match splitOn c ds with
      | [] => [[d]]
      | first :: rest => (d :: first) :: rest

/-- The name and the arguments of a macro call, which stands between backticks. -/
def macroParts (text : String) : String × List String :=
  let isTick (c : Char) : Bool := c.toNat == 0x60
  let body := ((text.toList.dropWhile isTick).reverse.dropWhile isTick).reverse
  let trimmed (cs : List Char) : String := String.ofList (Text.trimChars cs)
  match splitAt? '(' body with
  | none => (trimmed body, [])
  | some (name, rest) =>
    let inner := if rest.getLast? = some ')' then rest.dropLast else rest
    (trimmed name, ((splitOn ',' inner).map trimmed).filter (!·.isEmpty))

/-- The terms among the parts. -/
def terms (parts : List Part) : List Term :=
  (parts.filter fun p => p.tree.shape?.any Shape.isTerm).filterMap (·.term?)

/-- A node that is a term. -/
def term? (node : Placed) (parts : List Part) : Shape → Option Term
  | .searchOr => some (.or (terms parts) node.core)
  | .searchNot => do
    let part ← parts.find? fun p => p.tree.shape?.any Shape.isTerm
    return .not (← part.term?) node.core
  | .searchGroup => some (.group (terms parts) node.core)
  | .searchComparison => do
    let values := node.nodesOf .searchValue
    let field ← values[0]?
    let op ← node.lexemes.find? (·.kind.isComparison)
    return .comparison (searchText field) op.text (values[1]?.elim "" searchText) node.core
  | .searchIn =>
    match node.nodesOf .searchValue with
    | [] => none
    | field :: values => some (.oneOf (searchText field) (values.map searchText) node.core)
  | .searchTerm => do
    let value ← node.node? .searchValue
    return .keyword (searchText value) (quotedValue? value).isSome node.core
  | .searchMacro => do
    let l ← node.firstLexeme?
    let (name, arguments) := macroParts l.text
    return .macroCall name arguments node.core
  | _ => none

/-- Terms that an event must satisfy. -/
def searchOf (node : Placed) (parts : List Part) : Search := .mk (terms parts) node.core

end SplQuery.Meaning
