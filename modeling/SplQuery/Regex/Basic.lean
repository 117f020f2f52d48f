/-!
# Regular expressions

The structure of a regular expression, as far as it bears on its groups: what repeats, what stands
side by side, and which groups have names. What single characters and classes match is left out.
-/

namespace SplQuery

/-- A regular expression. -/
inductive Regex where
  | empty
  /-- a character, a class that is written in short, or a condition on a place -/
  | atom
  /-- flags that hold from here on -/
  | flagChange
  /-- a class in brackets, and how deep it is nested -/
  | brackets (height : Nat)
  | repeated (item : Regex)
  | group (name : Option String) (item : Regex)
  | alternatives (items : List Regex)
  | sequence (items : List Regex)
  deriving Repr

namespace Regex

/-- How deep regular expressions may be nested. -/
def heightLimit : Nat := 250

mutual

/-- How deep a regular expression is nested. -/
def height : Regex → Nat
  | .empty | .atom | .flagChange => 0
  | .brackets height => height
  | .repeated item | .group _ item => item.height + 1
  | .alternatives items | .sequence items => maxHeight items + 1

/-- The greatest height among several. -/
def maxHeight : List Regex → Nat
  | [] => 0
  | r :: rs => max r.height (maxHeight rs)

end

mutual

/-- The names of the groups, from left to right. -/
def names : Regex → List String
  | .group name item => name.toList ++ item.names
  | .repeated item => item.names
  | .alternatives items | .sequence items => namesOfAll items
  | _ => []

/-- The names of the groups of several. -/
def namesOfAll : List Regex → List String
  | [] => []
  | r :: rs => r.names ++ namesOfAll rs

end

/-- Several side by side; one by itself stays as it is. -/
def ofItems : List Regex → Regex
  | [] => .empty
  | [r] => r
  | rs => .sequence rs

end Regex

end SplQuery
