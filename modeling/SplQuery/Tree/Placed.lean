import SplQuery.Tree.Basic

/-!
# Trees with their places

A `Placed` tree says of every leaf and node which stretch of the query it covers. A node covers
what lies under it (`span`); without the trivia at its ends it covers its `core`, which is the
whole span when there is nothing but trivia under it.
-/

namespace SplQuery

/-- A tree with the stretches that its parts cover. -/
inductive Placed where
  /-- a lexeme -/
  | leaf (span : Span) (kind : Kind) (text : String)
  /-- a node; `core?` runs from its first to its last lexeme that is no trivia -/
  | node (span : Span) (core? : Option Span) (shape : Shape) (children : List Placed)
  deriving Repr

namespace Placed

/-- The stretch that the tree covers. -/
def span : Placed → Span
  | .leaf span _ _ => span
  | .node span _ _ _ => span

/-- The stretch from the first to the last lexeme that is no trivia. -/
def core? : Placed → Option Span
  | .leaf span kind _ => if kind.isTrivia then none else some span
  | .node _ core? _ _ => core?

/-- The stretch without the trivia at its ends, the whole one if there is nothing else. -/
def core (p : Placed) : Span := p.core?.getD p.span

/-- The children of a node, none for a leaf. -/
def children : Placed → List Placed
  | .leaf _ _ _ => []
  | .node _ _ _ children => children

/-- The shape of a node. -/
def shape? : Placed → Option Shape
  | .leaf _ _ _ => none
  | .node _ _ shape _ => some shape

/-- The stretch from the start of one to the end of another. -/
def joinCores : Option Span → Option Span → Option Span
  | some a, some b => some ⟨a.start, b.stop⟩
  | some a, none => some a
  | none, b => b

/-- The stretch from the first to the last lexeme of several trees that is no trivia. -/
def coreOfAll (ps : List Placed) : Option Span :=
  ps.foldr (fun p core? => joinCores p.core? core?) none

/-- A node with its stretches, given where it starts. -/
def ofChildren (start : Nat) (shape : Shape) (children : List Placed) : Placed :=
  .node ⟨start, children.getLast?.elim start (·.span.stop)⟩ (coreOfAll children) shape children

mutual

/-- The lexemes under a tree that are no trivia, as leaves. -/
def tokens : Placed → List Placed
  | .leaf span kind text => if kind.isTrivia then [] else [.leaf span kind text]
  | .node _ _ _ children => tokensOfAll children

/-- The lexemes under trees that are no trivia, as leaves. -/
def tokensOfAll : List Placed → List Placed
  | [] => []
  | p :: ps => p.tokens ++ tokensOfAll ps

end

mutual

/-- The nodes of a tree, each before its children. -/
def nodes : Placed → List Placed
  | .leaf _ _ _ => []
  | .node span core? shape children => .node span core? shape children :: nodesOfAll children

/-- The nodes of trees, each before its children. -/
def nodesOfAll : List Placed → List Placed
  | [] => []
  | p :: ps => p.nodes ++ nodesOfAll ps

end

end Placed

namespace Tree

mutual

/-- Places a tree that starts at a given place. -/
def place (start : Nat) : Tree → Placed
  | .leaf kind text => .leaf ⟨start, start + text.utf8ByteSize⟩ kind text
  | .node shape children => .ofChildren start shape (placeAll start children)

/-- Places trees one after another. -/
def placeAll (start : Nat) : List Tree → List Placed
  | [] => []
  | t :: ts =>
    let p := t.place start
    p :: placeAll p.span.stop ts

end

end Tree

end SplQuery
