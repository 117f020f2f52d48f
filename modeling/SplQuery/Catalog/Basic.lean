/-!
# What is known about commands and functions

The vocabulary of the two tables: what a command does to the fields of an event, what class of
cost it has, what a function returns and where it may be called. Every enumeration has one
`camelName`, its spelling in records, and where listings are kept by category also a `slug`.
-/

namespace SplQuery.Catalog

/-- What a command, or one of its parameters, does to a field. -/
inductive FieldEffect where
  | creates | modifies | drops | none
  deriving DecidableEq, Repr

/-- What a command does to the fields of the events that pass it. -/
structure FieldEffects where
  /-- adds fields -/
  creates : Bool
  /-- alters fields that exist -/
  modifies : Bool
  /-- removes fields -/
  drops : Bool
  /-- keeps the fields that its arguments do not name -/
  preservesOthers : Bool
  deriving DecidableEq, Repr

/-- The families of commands. -/
inductive CommandCategory where
  | search | filtering | fieldCreation | fieldManipulation | aggregation | ordering | combining
  | extraction | generating | multivalue | lookup | output | admin | machineLearning | formatting
  deriving DecidableEq, Repr

/-- How costly a command is likely to be. -/
inductive PerformanceRisk where
  | none | low | medium | high
  deriving DecidableEq, Repr

/-- The families of functions. -/
inductive FunctionCategory where
  | aggregate | eventOrder | comparison | conversion | cryptographic | dateTime | informational
  | json | math | multivalue | statistical | text | trigonometry
  deriving DecidableEq, Repr

/-- The type of a function's value. -/
inductive ReturnType where
  | number | string | boolean | multivalue | json | any
  deriving DecidableEq, Repr

/-- Where a function may be called: in expressions, in aggregations, or in both. -/
inductive FunctionContext where
  | eval | stats | both
  deriving DecidableEq, Repr

/-- One row of the command table. -/
structure CommandInfo where
  name : String
  aliases : List String
  category : CommandCategory
  description : String
  effects : FieldEffects
  /-- fields that the command always adds -/
  implicitFields : List String
  risk : PerformanceRisk
  riskNote : Option String
  /-- makes events instead of reading the ones before it -/
  generating : Bool
  /-- treats each event without seeing the others -/
  streaming : Bool
  deriving DecidableEq, Repr

/-- A parameter of a function. -/
structure FunctionParam where
  name : String
  optional : Bool
  variadic : Bool
  deriving DecidableEq, Repr

/-- One row of the function table. -/
structure FunctionInfo where
  name : String
  category : FunctionCategory
  returnType : ReturnType
  params : List FunctionParam
  context : FunctionContext
  description : String
  deriving DecidableEq, Repr

/-- The word for an effect. -/
def FieldEffect.camelName : FieldEffect → String
  | .creates => "creates"
  | .modifies => "modifies"
  | .drops => "drops"
  | .none => "none"

/-- The word for a class of cost. -/
def PerformanceRisk.camelName : PerformanceRisk → String
  | .none => "none"
  | .low => "low"
  | .medium => "medium"
  | .high => "high"

/-- The word for a type. -/
def ReturnType.camelName : ReturnType → String
  | .number => "number"
  | .string => "string"
  | .boolean => "boolean"
  | .multivalue => "multivalue"
  | .json => "json"
  | .any => "any"

namespace CommandCategory

/-- Every category. -/
def all : List CommandCategory := [
  .search, .filtering, .fieldCreation, .fieldManipulation, .aggregation, .ordering, .combining,
  .extraction, .generating, .multivalue, .lookup, .output, .admin, .machineLearning, .formatting]

/-- The category's words joined by a hyphen. -/
def slug : CommandCategory → String
  | .search => "search"
  | .filtering => "filtering"
  | .fieldCreation => "field-creation"
  | .fieldManipulation => "field-manipulation"
  | .aggregation => "aggregation"
  | .ordering => "ordering"
  | .combining => "combining"
  | .extraction => "extraction"
  | .generating => "generating"
  | .multivalue => "multivalue"
  | .lookup => "lookup"
  | .output => "output"
  | .admin => "admin"
  | .machineLearning => "machine-learning"
  | .formatting => "formatting"

/-- The category's words joined by a capital letter. -/
def camelName : CommandCategory → String
  | .fieldCreation => "fieldCreation"
  | .fieldManipulation => "fieldManipulation"
  | .machineLearning => "machineLearning"
  | c => c.slug

/-- The category with a given slug. -/
def ofSlug? (slug : String) : Option CommandCategory := all.find? (·.slug == slug)

end CommandCategory

namespace FunctionCategory

/-- Every category. -/
def all : List FunctionCategory := [
  .aggregate, .eventOrder, .comparison, .conversion, .cryptographic, .dateTime, .informational,
  .json, .math, .multivalue, .statistical, .text, .trigonometry]

/-- The category's words joined by a hyphen. -/
def slug : FunctionCategory → String
  | .aggregate => "aggregate"
  | .eventOrder => "event-order"
  | .comparison => "comparison"
  | .conversion => "conversion"
  | .cryptographic => "cryptographic"
  | .dateTime => "date-time"
  | .informational => "informational"
  | .json => "json"
  | .math => "math"
  | .multivalue => "multivalue"
  | .statistical => "statistical"
  | .text => "text"
  | .trigonometry => "trigonometry"

/-- The category's words joined by a capital letter. -/
def camelName : FunctionCategory → String
  | .eventOrder => "eventOrder"
  | .dateTime => "dateTime"
  | c => c.slug

/-- The category with a given slug. -/
def ofSlug? (slug : String) : Option FunctionCategory := all.find? (·.slug == slug)

end FunctionCategory

namespace FunctionContext

/-- The word for a context. -/
def camelName : FunctionContext → String
  | .eval => "eval"
  | .stats => "stats"
  | .both => "both"

/-- Whether calls in expressions are allowed. -/
def allowsEval : FunctionContext → Bool
  | .stats => false
  | _ => true

/-- Whether calls in aggregations are allowed. -/
def allowsStats : FunctionContext → Bool
  | .eval => false
  | _ => true

end FunctionContext

namespace FunctionInfo

/-- The least number of arguments of a call. -/
def minArity (f : FunctionInfo) : Nat := (f.params.filter (!·.optional)).length

/-- The greatest number of arguments of a call, `none` when it has no bound. -/
def maxArity? (f : FunctionInfo) : Option Nat :=
  if f.params.any (·.variadic) then none else some f.params.length

end FunctionInfo

end SplQuery.Catalog
