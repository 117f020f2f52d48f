import SplQuery.Regex.Read
import SplQuery.Text.Span

/-!
# Names of groups

The names of the groups of a pattern are the fields that it extracts. Patterns may be written for
another engine than the one that `Regex.read` reads for; then the names are looked for in the text
alone. The search counts bytes and cuts the text at bytes. Inside a character a text cannot be cut;
`none` stands for that fault.
-/

namespace SplQuery.Regex

open Text

/-- The bytes of a text. -/
def bytes (cs : List Char) : List UInt8 := cs.flatMap String.utf8EncodeChar

/-- The text in front of byte `n` and the text from there on. -/
def cutAt? (n : Nat) (cs : List Char) : Option (List Char × List Char) :=
  if width (before n cs) = n then some (before n cs, after n cs) else none

/-- The byte at which a character stands for the first time. -/
def findByte? (c : Char) (cs : List Char) : Option Nat :=
  if c ∈ cs then some (width (cs.takeWhile (· ≠ c))) else none

/-- What follows a parenthesis and a question mark in front of a name, and what ends the name. -/
def nameStart? : List Char → Option (List Char × Char)
  | 'P' :: '<' :: cs => some (cs, '>')
  | '<' :: cs => some (cs, '>')
  | '\'' :: cs => some (cs, '\'')
  | _ => none

/-- Whether a name can begin so. An angle before anything else looks back and names no group. -/
def startsName (cs : List Char) : Bool := cs.head?.any fun c => c.isAlpha || c == '_'

/-- The name of the group whose parenthesis and question mark were just read, if it has one. It goes
up to the first character that can end it. -/
def scanName? (cs : List Char) : Option (List String) :=
  match nameStart? cs with
  | some (body, closer) =>
    if startsName body then
      match findByte? closer body with
      | some n => (cutAt? n body).map fun (name, _) => [String.ofList name]
      | none => some []
    else some []
  | none => some []

/-- The names of the groups of a pattern from its byte `i` on, with the bytes that are left. A
backslash hides the byte after it. -/
def scanNamesFrom (pattern : List Char) (i : Nat) : List UInt8 → Option (List String)
  | [] => some []
  | [_] => some []
  | b :: b' :: bs =>
    if b = '\\'.toUInt8 then scanNamesFrom pattern (i + 2) bs
    else if b = '('.toUInt8 ∧ b' = '?'.toUInt8 then do
      let (_, rest) ← cutAt? (i + 2) pattern
      let names ← scanName? rest
      return names ++ (← scanNamesFrom pattern (i + 1) (b' :: bs))
    else scanNamesFrom pattern (i + 1) (b' :: bs)

/-- The names of the groups as the text shows them. -/
def scanNames (pattern : String) : Option (List String) :=
  scanNamesFrom pattern.toList 0 (bytes pattern.toList)

/-- The names of the groups of a pattern, from left to right. -/
def groupNames (pattern : String) : List String :=
  match read pattern with
  | some r => r.names
  | none => (scanNames pattern).getD []

end SplQuery.Regex
