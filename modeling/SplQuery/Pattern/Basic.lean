import SplQuery.Catalog.Basic

/-!
# Patterns of arguments

A `Pattern` says which arguments may follow the word of a command. It serves to complete a stage
that is being written and to name what its arguments are; it is matched against tokens alone.
-/

namespace SplQuery

open Catalog (FieldEffect)

/-- The sorts of values that a parameter takes. -/
inductive ParamType where
  /-- a field name -/
  | field
  /-- a field name that may hold stars -/
  | wildcardField
  /-- one field or more, commas between them optional -/
  | fieldList
  /-- a quoted text -/
  | string
  | number
  | integer
  | boolean
  /-- a relative time or a span of time -/
  | timeSpan
  /-- an expression -/
  | expression
  /-- a search, up to the end of the stage or a `by` -/
  | searchExpression
  /-- a regular expression -/
  | regex
  /-- a query in brackets -/
  | subsearch
  /-- the name of an aggregation, with or without arguments -/
  | aggregation
  /-- a bare name -/
  | name
  /-- any single value -/
  | any
  deriving DecidableEq, Repr

namespace ParamType

/-- Every sort of value. -/
def all : List ParamType := [
  .field, .wildcardField, .fieldList, .string, .number, .integer, .boolean, .timeSpan,
  .expression, .searchExpression, .regex, .subsearch, .aggregation, .name, .any]

/-- The name of the sort in records. -/
def label : ParamType → String
  | .field => "Field"
  | .wildcardField => "WildcardField"
  | .fieldList => "FieldList"
  | .string => "String"
  | .number => "Number"
  | .integer => "Integer"
  | .boolean => "Boolean"
  | .timeSpan => "TimeSpan"
  | .expression => "Expression"
  | .searchExpression => "SearchExpression"
  | .regex => "Regex"
  | .subsearch => "Subsearch"
  | .aggregation => "Aggregation"
  | .name => "Name"
  | .any => "Any"

/-- The sort in words. -/
def words : ParamType → String
  | .field => "field"
  | .wildcardField => "wildcard field"
  | .fieldList => "field list"
  | .string => "string"
  | .number => "number"
  | .integer => "integer"
  | .boolean => "boolean"
  | .timeSpan => "time span"
  | .expression => "expression"
  | .searchExpression => "search expression"
  | .regex => "regex"
  | .subsearch => "subsearch"
  | .aggregation => "aggregation"
  | .name => "name"
  | .any => "value"

/-- The sort with a given label. -/
def ofLabel? (label : String) : Option ParamType := all.find? (·.label == label)

end ParamType

/-- A parameter, and what the command does to the field that it names. -/
structure Param where
  name : String
  type : ParamType
  effect : FieldEffect
  deriving DecidableEq, Repr

/-- An option that is worth offering, written `name=value`. -/
structure OptionSpec where
  name : String
  type : ParamType
  deriving DecidableEq, Repr

/-- Which tokens may follow. -/
inductive Pattern where
  /-- one token with the given text, in any case -/
  | keyword (text : String)
  /-- a value -/
  | param (param : Param)
  /-- one pattern after another -/
  | seq (items : List Pattern)
  /-- the pattern, or nothing -/
  | optional (item : Pattern)
  /-- at least `min` times the pattern; a separator may stand between two of them -/
  | repeated (item : Pattern) (separator : Option String) (min : Nat)
  /-- one of several patterns -/
  | choice (alternatives : List Pattern)
  /-- any number of options; those listed are offered -/
  | options (offered : List OptionSpec)

/-- The pattern that takes nothing. -/
instance : Inhabited Pattern := ⟨.seq []⟩

/-- What is registered for a command. -/
structure CommandSyntax where
  name : String
  /-- other spellings of the name -/
  aliases : List String
  /-- the arguments in one line, for people -/
  usage : String
  /-- the arguments that may follow the name -/
  pattern : Pattern

end SplQuery
