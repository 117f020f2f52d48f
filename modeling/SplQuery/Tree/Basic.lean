import SplQuery.Kind.Basic
import SplQuery.Text.Span

/-!
# Trees over a query

A tree has the lexemes of a query at its leaves, trivia and garbage included, so that its text is
the text of the query. Places are not stored: they follow from the widths of what comes before.
-/

namespace SplQuery

/-- A tree over lexemes. -/
inductive Tree where
  /-- a lexeme -/
  | leaf (kind : Kind) (text : String)
  /-- a node with its children in order -/
  | node (shape : Shape) (children : List Tree)
  deriving Repr

namespace Tree

mutual

/-- The text under a tree. -/
def text : Tree → List Char
  | .leaf _ text => text.toList
  | .node _ children => textOfAll children

/-- The text under trees, one after another. -/
def textOfAll : List Tree → List Char
  | [] => []
  | t :: ts => t.text ++ textOfAll ts

end

mutual

/-- Every lexeme under a tree, trivia included, as a kind and a text. -/
def leaves : Tree → List (Kind × String)
  | .leaf kind text => [(kind, text)]
  | .node _ children => leavesOfAll children

/-- Every lexeme under trees, one tree after another. -/
def leavesOfAll : List Tree → List (Kind × String)
  | [] => []
  | t :: ts => t.leaves ++ leavesOfAll ts

end

end Tree

end SplQuery
