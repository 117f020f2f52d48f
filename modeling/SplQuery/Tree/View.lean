import SplQuery.Lexeme.Basic
import SplQuery.Tree.Placed

/-!
# Views of a tree

What is read off a node: its children of a shape, the lexemes directly under it, and its text
without the trivia at its ends. A part that is missing, after something wrong in the query, is
`none` or an empty list.
-/

namespace SplQuery

namespace Shape

/-- An expression. -/
def isExpression : Shape → Bool
  | .binaryExpr | .unaryExpr | .parenExpr | .callExpr | .inList | .fieldRef | .literal => true
  | _ => false

/-- A term of a search. -/
def isTerm : Shape → Bool
  | .searchOr | .searchNot | .searchGroup | .searchComparison | .searchIn | .searchTerm
  | .searchMacro | .subsearch => true
  | _ => false

/-- A command. -/
def isCommand : Shape → Bool
  | .searchCommand | .whereCommand | .evalCommand | .fieldformatCommand | .statsCommand
  | .tstatsCommand | .renameCommand | .rexCommand | .regexCommand | .lookupCommand
  | .inputlookupCommand | .tableCommand | .fieldsCommand | .dedupCommand | .sortCommand
  | .headCommand | .topCommand | .convertCommand | .replaceCommand | .strcatCommand
  | .trendlineCommand | .returnCommand | .fitCommand | .foreachCommand | .keywordCommand
  | .genericCommand => true
  | _ => false

/-- An entry of a list of fields. -/
def isEntry : Shape → Bool
  | .fieldItem | .aliasedField => true
  | _ => false

end Shape

namespace Placed

/-! ## Children -/

/-- Whether the tree is a node of a shape. -/
def isNode (shape : Shape) (p : Placed) : Bool := p.shape? == some shape

/-- The children of a node of a shape. -/
def nodesOf (shape : Shape) (p : Placed) : List Placed := p.children.filter (·.isNode shape)

/-- The first child of a shape. -/
def node? (shape : Shape) (p : Placed) : Option Placed := p.children.find? (·.isNode shape)

/-- The children that are nodes. -/
def childNodes (p : Placed) : List Placed := p.children.filter (·.shape?.isSome)

/-! ## Lexemes -/

/-- The leaf as a lexeme, unless it is trivia. -/
def lexeme? : Placed → Option Lexeme
  | .leaf span kind text => if kind.isTrivia then none else some ⟨kind, span.start, text⟩
  | .node _ _ _ _ => none

/-- The lexemes directly under a node, without trivia. -/
def lexemes (p : Placed) : List Lexeme := p.children.filterMap lexeme?

/-- The first lexeme directly under a node. -/
def firstLexeme? (p : Placed) : Option Lexeme := p.lexemes.head?

/-- The first lexeme of a kind directly under a node. -/
def lexemeOf? (kind : Kind) (p : Placed) : Option Lexeme := p.lexemes.find? (·.kind == kind)

/-! ## Text -/

mutual

/-- Every lexeme under a tree, trivia included, as a kind and a text. -/
def leaves : Placed → List (Kind × String)
  | .leaf _ kind text => [(kind, text)]
  | .node _ _ _ children => leavesOfAll children

/-- Every lexeme under trees. -/
def leavesOfAll : List Placed → List (Kind × String)
  | [] => []
  | p :: ps => p.leaves ++ leavesOfAll ps

end

/-- Drops the trivia at both ends. -/
def dropOuterTrivia (ls : List (Kind × String)) : List (Kind × String) :=
  ((ls.dropWhile (·.1.isTrivia)).reverse.dropWhile (·.1.isTrivia)).reverse

/-- The text of a tree without the trivia at its ends, the whole text if there is nothing else. -/
def text (p : Placed) : String :=
  let ls := p.leaves
  let inner := dropOuterTrivia ls
  String.join ((if inner.isEmpty then ls else inner).map (·.2))

end Placed

end SplQuery
