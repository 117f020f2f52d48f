import SplQuery.Record.Basic
import SplQuery.Text.Escaped

/-!
# Listings

A record in writing for people: every field, item and case on a line of its own, four spaces deeper
than what it belongs to, and a comma after each.
-/

namespace SplQuery.Record

/-- How listings write numbers. -/
def listingNotation : NumberNotation where
  leastPower := -4
  greatestPower := 15
  exponentMark := "e"
  infinity := "inf"

/-- The start of a line at a level. -/
def margin (level : Nat) : String := "".pushn ' ' (4 * level)

/-- Lines between an opening and a closing, one level deeper, each with a comma after it. -/
def enclosed (level : Nat) (opening closing : String) (lines : List String) : String :=
  if lines.isEmpty then opening ++ closing
  else
    opening ++ "\n" ++ String.join (lines.map fun l => margin (level + 1) ++ l ++ ",\n") ++
      margin level ++ closing

mutual

/-- The record as a listing that begins on a line at some level. -/
def listingAt (level : Nat) : Record → String
  | .absent => "None"
  | .present value => enclosed level "Some(" ")" [value.listingAt (level + 1)]
  | .flag value => if value then "true" else "false"
  | .count value => toString value
  | .number value => listingNotation.write value
  | .text value => Text.shown value
  | .choice name => name
  | .list items => enclosed level "[" "]" (itemsListing (level + 1) items)
  | .table entries =>
    enclosed level "\x7b" "\x7d" (entries.map fun e => Text.shown e.1 ++ ": " ++ Text.shown e.2)
  | .fields type _ members =>
    enclosed level (type ++ " \x7b") "\x7d" (membersListing (level + 1) members)
  | .variant name value => enclosed level (name ++ "(") ")" [value.listingAt (level + 1)]

/-- Items as listings. -/
def itemsListing (level : Nat) : List Record → List String
  | [] => []
  | r :: rs => r.listingAt level :: itemsListing level rs

/-- Members as listings behind their names. -/
def membersListing (level : Nat) : List (String × Record) → List String
  | [] => []
  | (name, value) :: ms => (name ++ ": " ++ value.listingAt level) :: membersListing level ms

end

/-- The record as a listing. -/
def listing (r : Record) : String := r.listingAt 0

end SplQuery.Record
