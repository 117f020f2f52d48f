import SplQuery.Query.Pipeline
import SplQuery.Text.Characters
import SplQuery.Text.Quoted
import SplQuery.Tree.View

/-!
# What a node of the tree means

The meaning of a node is found from the node and the meanings of its children, from the leaves of
the tree to its root. Nothing that is wrong in the query makes this fail: what is missing is left
out. Only a command whose fields are too many to be listed ends the program.
-/

namespace SplQuery

/-- What a node stands for. -/
inductive Meaning where
  | nothing
  | expression (e : Expression)
  /-- the arguments of a call -/
  | expressions (es : List Expression)
  | term (t : Term)
  | search (s : Search)
  | assignment (a : Assignment)
  | aggregation (a : Aggregation)
  | command (c : Command)
  | pipeline (p : Pipeline)

/-- The command that a node stands for. -/
def Meaning.asCommand? : Meaning → Option Command
  | .command c => some c
  | _ => none

/-- A child of a node together with its meaning. -/
structure Part where
  tree : Placed
  meaning : Meaning

namespace Part

/-- The expression that the part stands for. -/
def expression? (p : Part) : Option Expression :=
  match p.meaning with
  | .expression e => some e
  | _ => none

/-- The arguments of a call that the part stands for. -/
def expressions (p : Part) : List Expression :=
  match p.meaning with
  | .expressions es => es
  | _ => []

/-- The query that the part stands for. -/
def pipeline? (p : Part) : Option Pipeline :=
  match p.meaning with
  | .pipeline q => some q
  | _ => none

/-- The term that the part stands for; a nested query is one. -/
def term? (p : Part) : Option Term :=
  match p.meaning with
  | .term t => some t
  | .pipeline q => some (.subsearch q p.tree.core)
  | _ => none

/-- The search that the part stands for. -/
def search? (p : Part) : Option Search :=
  match p.meaning with
  | .search s => some s
  | _ => none

/-- The assignment that the part stands for. -/
def assignment? (p : Part) : Option Assignment :=
  match p.meaning with
  | .assignment a => some a
  | _ => none

/-- The aggregation that the part stands for. -/
def aggregation? (p : Part) : Option Aggregation :=
  match p.meaning with
  | .aggregation a => some a
  | _ => none

/-- The stage that the part stands for. -/
def stage? (p : Part) : Option Stage :=
  match p.meaning with
  | .search s => some (.search s)
  | .command c => some (.command c p.tree.core)
  | _ => none

end Part

/-! ## Parts of a node -/

namespace Meaning

/-- The parts of a shape. -/
def partsOf (shape : Shape) (parts : List Part) : List Part :=
  parts.filter (·.tree.isNode shape)

/-- The first part of a shape. -/
def part? (shape : Shape) (parts : List Part) : Option Part :=
  parts.find? (·.tree.isNode shape)

/-- The parts that are expressions. -/
def expressionParts (parts : List Part) : List Part :=
  parts.filter fun p => p.tree.shape?.any Shape.isExpression

/-- The first expression among the parts. -/
def firstExpression? (parts : List Part) : Option Expression :=
  (expressionParts parts).head?.bind (·.expression?)

/-- The queries between brackets among the parts. -/
def queries (parts : List Part) : List Pipeline :=
  (partsOf .subsearch parts).filterMap (·.pipeline?)

/-- The aggregations among the parts. -/
def aggregations (parts : List Part) : List Aggregation := parts.filterMap (·.aggregation?)

/-- The search of the first `where` clause among the parts. -/
def condition? (parts : List Part) : Option Search := (part? .whereClause parts).bind (·.search?)

end Meaning

namespace Placed

/-! ## Names and values -/

/-- The word that a command begins with. -/
def commandWord? (node : Placed) : Option CommandWord :=
  node.firstLexeme?.bind fun l =>
    match l.kind with
    | .command w => some w
    | _ => none

/-- The text of a value, without its quotes. -/
def value (p : Placed) : String := Text.unquote p.text

/-- A field name as a reference. -/
def fieldRef (p : Placed) : FieldRef := ⟨p.value, p.core⟩

/-- The name and the value of an option, the name in lower case. -/
def option? (p : Placed) : Option (String × String) :=
  p.firstLexeme?.map fun name =>
    (name.text.toLower, (p.node? .optionValue).elim "" (·.value))

/-- The options among the children. -/
def options (p : Placed) : Options := .ofList ((p.nodesOf .optionArg).filterMap (·.option?))

/-- The names in the lists of fields among the children. -/
def listed (p : Placed) : List Placed := (p.nodesOf .fieldList).flatMap (·.nodesOf .fieldItem)

/-- The fields in the lists of fields among the children. -/
def listedFields (p : Placed) : List FieldRef := p.listed.map (·.fieldRef)

/-- The names in the first list of fields of a clause. -/
def clauseItems (p : Placed) : List Placed := (p.node? .fieldList).elim [] (·.nodesOf .fieldItem)

/-- The fields of the first `by` clause. -/
def byFields (p : Placed) : List FieldRef :=
  (p.node? .byClause).elim [] fun c => c.clauseItems.map (·.fieldRef)

/-- The number in front of the other arguments. -/
def leadingCount? (p : Placed) : Option Nat :=
  (p.node? .literal).bind fun n => Text.readCount? n.text

/-- The value of the first argument that stands by itself. -/
def firstArgument? (p : Placed) : Option String := (p.node? .argument).map (·.value)

/-- The fields of a list, each with its other name if it has one. -/
def renamedFields (list : Placed) : List RenamedField :=
  (list.children.filter (·.shape?.any Shape.isEntry)).filterMap fun entry =>
    if entry.isNode .fieldItem then some ⟨entry.value, none⟩
    else entry.childNodes.head?.map fun field =>
      ⟨field.value, entry.childNodes[1]?.map (·.value)⟩

/-! ## Calls on fields -/

/-- The field between the parentheses of a call. -/
def calledField? (call : Placed) : Option String := (call.node? .fieldItem).map (·.value)

/-- The name of the called function, in lower case. -/
def calledName? (call : Placed) : Option String := call.firstLexeme?.map (·.text.toLower)

/-- The name after `as`. -/
def callAlias? (call : Placed) : Option String :=
  (call.lexemeOf? (.clause .as)).bind fun _ => (call.nodesOf .fieldItem)[1]?.map (·.value)

end Placed

end SplQuery
