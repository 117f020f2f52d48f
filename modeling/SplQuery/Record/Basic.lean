import SplQuery.Json
import SplQuery.Number.Notation
import SplQuery.Text.Location

/-!
# Records

A `Record` is a value with the names of its type and of its fields. Both forms in which a query is
handed over are made from it: documents (`Record.toJson`) and listings (`Record.listing`). Names of
fields consist of words with underscores between them.
-/

namespace SplQuery

/-- A value with its names. -/
inductive Record where
  | absent
  | present (value : Record)
  | flag (value : Bool)
  | count (value : Nat)
  | number (value : Binary64)
  | text (value : String)
  /-- one of several names -/
  | choice (name : String)
  | list (items : List Record)
  /-- texts under names that are not fixed -/
  | table (entries : List (String × String))
  /-- fields under the name of their type; the tag tells the type apart from others in its
  place -/
  | fields (type : String) (tag : Option String) (members : List (String × Record))
  /-- a value that stands in the place of others, and the name of its case -/
  | variant (name : String) (value : Record)

namespace Record

/-! ## Building records -/

/-- A value or its absence. -/
def optional {α : Type} (f : α → Record) : Option α → Record
  | none => .absent
  | some a => .present (f a)

/-- A text or its absence. -/
def optionalText : Option String → Record := optional .text

/-- A whole number or its absence. -/
def optionalCount : Option Nat → Record := optional .count

/-- Several values. -/
def listOf {α : Type} (f : α → Record) (as : List α) : Record := .list (as.map f)

/-- Several texts. -/
def texts : List String → Record := listOf .text

/-- Fields without a tag. -/
def plain (type : String) (members : List (String × Record)) : Record := .fields type none members

/-- Fields with a tag that is the name of their type. -/
def tagged (type : String) (members : List (String × Record)) : Record :=
  .fields type (some type) members

/-- Where something stands. -/
def location (l : Location) : Record := .plain "SourceLocation" [
  ("start_line", .count l.first.line), ("start_column", .count l.first.column),
  ("end_line", .count l.last.line), ("end_column", .count l.last.column),
  ("start_offset", .count l.span.start), ("end_offset", .count l.span.stop)]

/-! ## Documents -/

/-- How documents write numbers. -/
def documentNotation : NumberNotation where
  leastPower := -5
  greatestPower := 15
  exponentMark := "e+"
  infinity := "null"

/-- The words of a name without the underscores, each but the first with a capital letter. -/
def memberName (name : String) : String :=
  match name.splitOn "_" with
  | [] => ""
  | first :: rest => first ++ String.join (rest.map String.capitalize)

mutual

/-- The record as a document. -/
def toJson : Record → Json
  | .absent => .null
  | .present value => value.toJson
  | .flag value => .bool value
  | .count value => .nat value
  | .number value => .number (documentNotation.write value)
  | .text value => .string value
  | .choice name => .string name.toLower
  | .list items => .array (itemsToJson items)
  | .table entries => .object (entries.map fun e => (e.1, .string e.2))
  | .fields _ tag members =>
    .object (tag.elim [] (fun t => [("type", .string t)]) ++ membersToJson members)
  | .variant _ value => value.toJson

/-- Items as documents. -/
def itemsToJson : List Record → List Json
  | [] => []
  | r :: rs => r.toJson :: itemsToJson rs

/-- Members as members of a document. -/
def membersToJson : List (String × Record) → List (String × Json)
  | [] => []
  | (name, value) :: ms => (memberName name, value.toJson) :: membersToJson ms

end

end Record

end SplQuery
