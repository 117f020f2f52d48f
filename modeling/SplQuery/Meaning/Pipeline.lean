import SplQuery.Meaning.Command
import SplQuery.Meaning.Expression
import SplQuery.Meaning.Search

/-!
# What a tree means

`Placed.meaning` finds what a tree stands for, from the leaves to the root, and `Placed.pipeline`
the query at the root of a parsed text. `Placed.lowered` are the commands that are made on the way,
not all of which become a part of the query.
-/

namespace SplQuery

namespace Meaning

/-- What a command's node stands for. -/
def command? (node : Placed) (parts : List Part) : Shape → Option Command
  | .searchCommand => some (searchCommand node parts)
  | .whereCommand => some (.simple (whereCommand parts))
  | .evalCommand => some (.simple (.eval (assignments parts)))
  | .fieldformatCommand => some (.simple (.fieldformat (assignments parts)))
  | .statsCommand => some (.simple (statsCommand node parts))
  | .tstatsCommand => some (tstatsCommand node parts)
  | .renameCommand => some (.simple (renameCommand node))
  | .rexCommand => some (.simple (rexCommand node))
  | .regexCommand => some (.simple (regexCommand node))
  | .lookupCommand => some (.simple (lookupCommand node))
  | .inputlookupCommand => some (inputlookupCommand node parts)
  | .tableCommand => some (.simple (.table node.listedFields))
  | .fieldsCommand => some (.simple (fieldsCommand node))
  | .dedupCommand => some (.simple (dedupCommand node))
  | .sortCommand => some (.simple (sortCommand node))
  | .headCommand => some (.simple (headCommand node parts))
  | .topCommand => some (.simple (topCommand node))
  | .convertCommand => some (.simple (convertCommand node))
  | .replaceCommand => some (.simple (replaceCommand node))
  | .strcatCommand => some (.simple (strcatCommand node))
  | .trendlineCommand => some (.simple (trendlineCommand node))
  | .returnCommand => some (.simple (returnCommand node))
  | .fitCommand => some (.simple (fitCommand node))
  | .foreachCommand => some (foreachCommand node parts)
  | .keywordCommand => some (freeCommand node parts)
  | .genericCommand => some (genericCommand node (.ofParts parts))
  | _ => none

/-- What a node stands for, given what its children stand for. -/
def ofNode (node : Placed) (shape : Shape) (parts : List Part) : Meaning :=
  match shape with
  | .root => (part? .pipeline parts).elim .nothing (·.meaning)
  | .pipeline => .pipeline (.mk (parts.filterMap (·.stage?)) node.core)
  | .subsearch =>
    .pipeline (((part? .pipeline parts).bind (·.pipeline?)).getD (.mk [] node.core))
  | .searchExpr => .search (searchOf node parts)
  | .whereClause => (part? .searchExpr parts).elim .nothing (·.meaning)
  | .argList => .expressions (arguments parts)
  | .assignment => (assignment? node parts).elim .nothing .assignment
  | .aggregation => (aggregation? node parts).elim .nothing .aggregation
  | shape =>
    if shape.isExpression then (expression? node parts shape).elim .nothing .expression
    else if shape.isTerm then (term? node parts shape).elim .nothing .term
    else (command? node parts shape).elim .nothing .command

/-- The children of a node that are looked into to find what the node stands for. The children may
be trees, or come with more. -/
def visited {α : Type} (tree : α → Placed) (shape : Shape) (children : List α) : List α :=
  let first (shape : Shape) := (children.find? fun c => (tree c).isNode shape).toList
  match shape with
  | .root | .subsearch => first .pipeline
  | .searchCommand | .whereClause => first .searchExpr
  | .tstatsCommand | .inputlookupCommand => first .whereClause
  | .foreachCommand => first .subsearch
  | .keywordCommand | .genericCommand => children.filter fun c => (tree c).isNode .subsearch
  | .pipeline => children
  | .searchExpr | .searchOr | .searchGroup =>
    children.filter fun c => (tree c).shape?.any Shape.isTerm
  | .searchNot => (children.find? fun c => (tree c).shape?.any Shape.isTerm).toList
  | _ => []

end Meaning

namespace Placed

mutual

/-- What a tree stands for. -/
def meaning : Placed → Meaning
  | .leaf _ _ _ => .nothing
  | .node span core? shape children =>
    Meaning.ofNode (.node span core? shape children) shape (partsOfAll children)

/-- What each of several trees stands for. -/
def partsOfAll : List Placed → List Part
  | [] => []
  | p :: ps => ⟨p, p.meaning⟩ :: partsOfAll ps

end

mutual

/-- The nodes that are looked into to find what a tree stands for. -/
def visited : Placed → List Placed
  | .leaf _ _ _ => []
  | .node span core? shape children =>
    .node span core? shape children ::
      (Meaning.visited (·.1) shape (visitedOfAll children)).flatMap (·.2)

/-- Each of several trees with the nodes of it that are looked into. -/
def visitedOfAll : List Placed → List (Placed × List Placed)
  | [] => []
  | p :: ps => (p, p.visited) :: visitedOfAll ps

end

/-- The commands that are made to find what a tree stands for, those of queries included that the
command around them leaves out. -/
def lowered (p : Placed) : List Command := p.visited.filterMap (·.meaning.asCommand?)

/-- The query that a tree stands for, an empty one if it is none. -/
def pipeline (p : Placed) : Pipeline :=
  match p.meaning with
  | .pipeline q => q
  | _ => .mk [] (.emptyAt 0)

end Placed

end SplQuery
