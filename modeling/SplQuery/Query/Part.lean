import SplQuery.Query.Expression

/-!
# Parts of commands

What several commands have among their arguments: fields with other names, assignments,
aggregations, things to sort by.
-/

namespace SplQuery

/-- A field and the name under which it is passed on, if that is another. -/
structure RenamedField where
  field : String
  newName : Option String
  deriving DecidableEq, Repr

/-- `target = expression`. -/
structure Assignment where
  target : String
  expression : Expression
  span : Span
  deriving Repr

/-- `fn(arguments) as alias`. -/
structure Aggregation where
  /-- the name of the function, in lower case -/
  function : String
  arguments : List Expression
  /-- what stands between the parentheses, if there are any -/
  argumentText : Option String
  newName : Option String
  span : Span
  deriving Repr

namespace Aggregation

/-- The field that is aggregated: the first argument, if it is no more than a field. -/
def field? (a : Aggregation) : Option String :=
  a.arguments.head?.bind fun e => e.field?.map (·.name)

/-- The field that holds the result. -/
def output (a : Aggregation) : String :=
  a.newName.getD (a.argumentText.elim a.function fun text => a.function ++ "(" ++ text ++ ")")

end Aggregation

/-- Something to sort by. -/
structure SortKey where
  field : String
  /-- the function that makes values comparable, in lower case -/
  function : Option String
  descending : Bool
  span : Span
  deriving DecidableEq, Repr

/-- `fn(field) as alias`. -/
structure Conversion where
  /-- the name of the function, in lower case -/
  function : String
  field : String
  newName : Option String
  span : Span
  deriving DecidableEq, Repr

/-- `old with new`. -/
structure Replacement where
  old : String
  new : String
  deriving DecidableEq, Repr

/-- `old as new`. -/
structure Renaming where
  old : String
  new : String
  span : Span
  deriving DecidableEq, Repr

/-- A moving average: `sma5(field) as alias`. -/
structure Trend where
  /-- the name of the function together with the number of values, in lower case -/
  name : String
  field : String
  newName : Option String
  deriving DecidableEq, Repr

namespace Trend

/-- The name of the function alone. -/
def function (t : Trend) : String := String.ofList (t.name.toList.takeWhile (!·.isDigit))

/-- The text behind the name of the function, which should be a number. -/
def periodText (t : Trend) : String := String.ofList (t.name.toList.dropWhile (!·.isDigit))

/-- The field that holds the result. -/
def output (t : Trend) : String := t.newName.getD (t.name ++ "(" ++ t.field ++ ")")

end Trend

end SplQuery
