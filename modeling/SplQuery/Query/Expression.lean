import SplQuery.Text.Span

/-!
# Expressions

What a field may be computed from, or a condition on it. `Expression.fields` lists the fields that
an expression reads.
-/

namespace SplQuery

/-- The name of a field, and where it stands. The name may hold stars. -/
structure FieldRef where
  name : String
  span : Span
  deriving DecidableEq, Repr

namespace FieldRef

/-- Whether a name stands for all fields that match it. -/
def nameIsPattern (name : String) : Bool := name.toList.contains '*'

/-- Whether the name stands for all fields that match it. -/
def isPattern (f : FieldRef) : Bool := nameIsPattern f.name

end FieldRef

/-- An expression. -/
inductive Expression where
  /-- an operator between two operands; a word is in lower case -/
  | binary (operator : String) (left right : Expression) (span : Span)
  /-- a sign in front of an operand; a word is in lower case -/
  | unary (operator : String) (operand : Expression) (span : Span)
  /-- the call of a function, its name in lower case; `x in (...)` calls `in` -/
  | call (function : String) (arguments : List Expression) (span : Span)
  | field (ref : FieldRef)
  /-- a text, quotes removed -/
  | string (value : String) (span : Span)
  /-- a number as it is written -/
  | number (digits : String) (span : Span)
  | boolean (value : Bool) (span : Span)
  /-- a relative time as it is written -/
  | time (value : String) (span : Span)
  deriving Repr

namespace Expression

/-- Where the expression stands. -/
def span : Expression → Span
  | .binary _ _ _ span | .unary _ _ span | .call _ _ span | .string _ span | .number _ span
  | .boolean _ span | .time _ span => span
  | .field ref => ref.span

/-- The operands or arguments, from left to right. -/
def children : Expression → List Expression
  | .binary _ left right _ => [left, right]
  | .unary _ operand _ => [operand]
  | .call _ arguments _ => arguments
  | _ => []

/-- The field that the expression is, if it is no more than that. -/
def field? : Expression → Option FieldRef
  | .field ref => some ref
  | _ => none

mutual

/-- The expression and all under it, each before what is under it. -/
def walk : Expression → List Expression
  | .binary op left right span => .binary op left right span :: (left.walk ++ right.walk)
  | .unary op operand span => .unary op operand span :: operand.walk
  | .call f arguments span => .call f arguments span :: walkAll arguments
  | e => [e]

/-- Expressions and all under them. -/
def walkAll : List Expression → List Expression
  | [] => []
  | e :: es => e.walk ++ walkAll es

end

/-- Puts a name behind those already listed, unless it is among them. -/
def addName (names : List String) (name : String) : List String :=
  if names.contains name then names else names ++ [name]

/-- The names of the fields that are read, each once, in the order in which they first appear.
Patterns are left out. -/
def fields (e : Expression) : List String :=
  ((e.walk.filterMap field?).filter (!·.isPattern)).foldl (fun names f => addName names f.name) []

end Expression

end SplQuery
