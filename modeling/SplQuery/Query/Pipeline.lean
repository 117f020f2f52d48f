import SplQuery.Query.Command

/-!
# Queries

A query is a pipeline of stages, each a search or a command. Searches and some commands hold
queries of their own, between brackets.

* `Pipeline.subqueries`, `Stage.subqueries` — the queries nested directly in one, in order.
* `Search.fields` — the fields that a search compares.
-/

namespace SplQuery

/-- The commands that join the results of another query to those of the one around it. -/
inductive AppendVariant where
  | append | appendcols | appendpipe
  deriving DecidableEq, Repr

namespace AppendVariant

/-- The word of the command. -/
def name : AppendVariant → String
  | .append => "append"
  | .appendcols => "appendcols"
  | .appendpipe => "appendpipe"

end AppendVariant

mutual

/-- A query. -/
inductive Pipeline where
  | mk (stages : List Stage) (span : Span)

/-- A stage of a query. -/
inductive Stage where
  | search (search : Search)
  | command (command : Command) (span : Span)

/-- Terms that an event must satisfy, all of them. -/
inductive Search where
  | mk (terms : List Term) (span : Span)

/-- A term of a search. -/
inductive Term where
  /-- one of the terms at least -/
  | or (operands : List Term) (span : Span)
  | not (operand : Term) (span : Span)
  /-- all of the terms -/
  | group (terms : List Term) (span : Span)
  | comparison (field operator value : String) (span : Span)
  /-- one of the values -/
  | oneOf (field : String) (values : List String) (span : Span)
  /-- a text that the event holds, and whether it was given in quotes -/
  | keyword (text : String) (quoted : Bool) (span : Span)
  /-- a name for terms that are written elsewhere, with arguments -/
  | macroCall (name : String) (arguments : List String) (span : Span)
  /-- terms that another query gives -/
  | subsearch (query : Pipeline) (span : Span)

/-- A command. -/
inductive Command where
  | simple (command : SimpleCommand)
  | search (search : Search)
  | tstats (aggregations : List Aggregation) (datamodel : Option String)
    (condition : Option Search) (byFields : List FieldRef) (options : Options)
  | inputlookup (table : Option String) (condition : Option Search) (options : Options)
  | join (mode : Option String) (fields : List FieldRef) (options : Options)
    (query : Option Pipeline)
  | append (variant : AppendVariant) (options : Options) (query : Option Pipeline)
  | union (datasets : List String) (options : Options) (queries : List Pipeline)
  | multisearch (queries : List Pipeline)
  /-- a query that is run for each field -/
  | foreach (fields : List FieldRef) (options : Options) (body : Option Pipeline)
  /-- a query that is run for each event, by name or between brackets -/
  | map (search : Option String) (options : Options) (query : Option Pipeline)
  /-- a command that is not known, its name in lower case and its arguments as they are -/
  | generic (name : String) (options : Options) (arguments : List String)
    (queries : List Pipeline)

end

instance : Inhabited Pipeline := ⟨.mk [] default⟩

/-! ## Where things stand -/

/-- The stages of a query. -/
def Pipeline.stages : Pipeline → List Stage
  | .mk stages _ => stages

/-- Where a query stands. -/
def Pipeline.span : Pipeline → Span
  | .mk _ span => span

/-- The terms of a search. -/
def Search.terms : Search → List Term
  | .mk terms _ => terms

/-- Where a search stands. -/
def Search.span : Search → Span
  | .mk _ span => span

/-- Where a term stands. -/
def Term.span : Term → Span
  | .or _ span | .not _ span | .group _ span | .comparison _ _ _ span | .oneOf _ _ span
  | .keyword _ _ span | .macroCall _ _ span | .subsearch _ span => span

/-- Where a stage stands. -/
def Stage.span : Stage → Span
  | .search s => s.span
  | .command _ span => span

/-! ## Nested queries -/

namespace Term

mutual

/-- The queries nested directly in a term. -/
def subqueries : Term → List Pipeline
  | .or operands _ => subqueriesOfAll operands
  | .not operand _ => operand.subqueries
  | .group terms _ => subqueriesOfAll terms
  | .subsearch query _ => [query]
  | _ => []

/-- The queries nested directly in terms. -/
def subqueriesOfAll : List Term → List Pipeline
  | [] => []
  | t :: ts => t.subqueries ++ subqueriesOfAll ts

end

mutual

/-- The names compared in a term, as often as they are, nested queries left out. -/
def comparedNames : Term → List String
  | .comparison field _ _ _ | .oneOf field _ _ => [field]
  | .or operands _ => comparedNamesOfAll operands
  | .not operand _ => operand.comparedNames
  | .group terms _ => comparedNamesOfAll terms
  | _ => []

/-- The names compared in terms. -/
def comparedNamesOfAll : List Term → List String
  | [] => []
  | t :: ts => t.comparedNames ++ comparedNamesOfAll ts

end

end Term

namespace Search

/-- The queries nested directly in a search. -/
def subqueries (s : Search) : List Pipeline := Term.subqueriesOfAll s.terms

/-- The names of the fields that are compared, each once, in the order in which they first
appear. Patterns are left out. -/
def fields (s : Search) : List String :=
  ((Term.comparedNamesOfAll s.terms).filter (!FieldRef.nameIsPattern ·)).foldl
    Expression.addName []

end Search

namespace Command

/-- The word of the command. -/
def name : Command → String
  | .simple c => c.name
  | .search .. => "search"
  | .tstats .. => "tstats"
  | .inputlookup .. => "inputlookup"
  | .join .. => "join"
  | .append variant .. => variant.name
  | .union .. => "union"
  | .multisearch .. => "multisearch"
  | .foreach .. => "foreach"
  | .map .. => "map"
  | .generic name .. => name

/-- The queries nested directly in a command. -/
def subqueries : Command → List Pipeline
  | .simple _ => []
  | .search s => s.subqueries
  | .tstats _ _ condition _ _ | .inputlookup _ condition _ =>
    condition.elim [] (·.subqueries)
  | .join _ _ _ query | .append _ _ query | .foreach _ _ query | .map _ _ query => query.toList
  | .union _ _ queries | .multisearch queries | .generic _ _ _ queries => queries

/-- The fields that a command adds to every event. -/
def createdFields : Command → List String
  | .simple c => c.createdFields
  | _ => []

/-- Whether the fields that the command adds can be listed. -/
def isListable : Command → Bool
  | .simple c => c.isListable
  | _ => true

/-- The options, where the command keeps them. -/
def options? : Command → Option Options
  | .simple c => c.options?
  | .tstats _ _ _ _ options | .inputlookup _ _ options | .join _ _ options _
  | .append _ options _ | .union _ options _ | .foreach _ options _ | .map _ options _
  | .generic _ options _ _ => some options
  | .search _ | .multisearch _ => none

/-- The expressions among the arguments, in order. -/
def expressions : Command → List Expression
  | .simple c => c.expressions
  | .tstats aggregations _ _ _ _ => aggregations.flatMap (·.arguments)
  | _ => []

end Command

namespace Stage

/-- The command, unless the stage is a search. -/
def command? : Stage → Option Command
  | .search _ => none
  | .command c _ => some c

/-- The queries nested directly in a stage. -/
def subqueries : Stage → List Pipeline
  | .search s => s.subqueries
  | .command c _ => c.subqueries

end Stage

namespace Pipeline

/-- The commands among the stages. -/
def commands (p : Pipeline) : List Command := p.stages.filterMap (·.command?)

/-- The queries nested directly in the stages. -/
def subqueries (p : Pipeline) : List Pipeline := p.stages.flatMap (·.subqueries)

end Pipeline

end SplQuery
