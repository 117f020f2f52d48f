import SplQuery.Regex.Basic
import SplQuery.Regex.CharSet
import SplQuery.Number.Decimal
import SplQuery.Text.Alphabet

/-!
# From a pattern to a regular expression

`Regex.read` reads a whole pattern. It refuses what is no regular expression, conditions on what
comes before or after, references to groups, names that are given twice, and what is nested too
deeply.

As in `regex-syntax`, a repetition follows an item that is neither empty nor a change of flags. Its
counts are below 2 ^ 32 and not out of order, and the upper one may be left out. Flags are each
given once. The name of a group begins with a letter or an underscore, and letters, digits,
underscores, dots and square brackets may follow; `(?P<` and `(?<` begin the same sort of group. A
flag in parentheses of its own holds up to the end of the group around it.
-/

namespace SplQuery.Regex

open Reader

/-! ## Repetition -/

/-- A number of repetitions, if one is given, with blanks around it or without. -/
def repetitionCount : Reader (Option Nat) := do
  modify fun c => { c with rest := c.rest.dropWhile Text.isBlank }
  let digits ← collect Char.isDigit
  let _ ← collect Text.isBlank
  if digits.isEmpty then return none
  let n := Decimal.ofDigits digits
  guard (n < 0x100000000)
  return some n

/-- A question mark, which makes a repetition as short as it can be. -/
def laziness : Reader Unit := do
  if ← isAt "?" then advance 1

/-- How often something is repeated, in braces. -/
def countedRepetition : Reader Unit := do
  step
  let _ ← need
  let low ← repetitionCount
  if (← need) == ',' then
    step
    let low ← low
    if (← need) != '\x7d' then
      let high ← repetitionCount
      guard (low ≤ (← high))
  guard (low.isSome && (← need) == '\x7d')
  step
  laziness

/-- The items after the last of them is repeated. There must be one, and no flags. -/
def repeatLast : List Regex → Option (List Regex)
  | [] | .flagChange :: _ | .empty :: _ => none
  | r :: rs => some (.repeated r :: rs)

/-! ## Groups -/

/-- How a parenthesis begins. -/
inductive Opening where
  /-- flags by themselves; blanks are passed over or not from here on -/
  | flags (verbose : Option Bool)
  /-- a group; blanks in it are passed over or not -/
  | group (name : Option String) (verbose : Option Bool)

/-- Whether a character may stand in the name of a group. -/
def isNameChar (c : Char) : Bool :=
  c == '_' || c == '.' || c == '[' || c == ']' || Text.isAlphanumeric c

/-- Whether a name is one that a group may have. -/
def isGroupName : List Char → Bool
  | [] => false
  | c :: cs => (c == '_' || Text.isAlphabetic c) && cs.all isNameChar

/-- The name of a group, up to the bracket that ends it. -/
def groupName : Reader String := do
  let c ← get
  let name := c.rest.takeWhile (· ≠ '>')
  guard (isGroupName name && !c.names.contains (String.ofList name))
  modify fun c => { c with
    rest := c.rest.drop name.length
    names := String.ofList name :: c.names }
  expect '>'
  return String.ofList name

/-- Flags up to what ends them, the last one first. Each is given once, and not all at the end are
turned off. -/
def flagsFrom (seen : List Char) : List Char → Option (List Char × List Char)
  | [] => none
  | c :: cs =>
    if c = ':' ∨ c = ')' then if seen.head? = some '-' then none else some (seen, c :: cs)
    else if "-imsUuRx".toList.contains c && !seen.contains c then flagsFrom (c :: seen) cs
    else none

/-- Whether flags turn the verbose form on or off. -/
def verboseFlag (flags : List Char) : Option Bool :=
  if flags.contains 'x' then some (!(flags.dropWhile (· ≠ 'x')).contains '-') else none

/-- A parenthesis and what tells the sort of group that it opens. -/
def opening : Reader Opening := do
  step
  if (← isAt "?=") || (← isAt "?!") || (← isAt "?<=") || (← isAt "?<!") then failure
  if ← isAt "?P<" then
    advance 3
    return .group (← groupName) none
  if ← isAt "?<" then
    advance 2
    return .group (← groupName) none
  if ← isAt "?" then
    let (flags, rest) ← flagsFrom [] ((← get).rest.drop 1)
    modify fun c => { c with rest := rest.drop 1 }
    if rest.head? = some ')' then
      guard (!flags.isEmpty)
      return .flags (verboseFlag flags)
    return .group none (verboseFlag flags)
  return .group none none

/-! ## Whole patterns -/

/-- What is open around a place in a pattern. -/
inductive Frame where
  /-- a group, after some items, and whether blanks are passed over outside -/
  | group (name : Option String) (before : List Regex) (verbose : Bool)
  /-- alternatives, the last one first -/
  | alternatives (items : List Regex)

/-- What stands between the innermost parenthesis and here, given the items of the last
alternative, and what is open around it. -/
def closeAlternatives (items : List Regex) : List Frame → Regex × List Frame
  | .alternatives rs :: frames =>
    (.alternatives (Regex.ofItems items.reverse :: rs).reverse, frames)
  | frames => (Regex.ofItems items.reverse, frames)

/-- What is open after a bar. -/
def nextAlternative (items : List Regex) : List Frame → List Frame
  | .alternatives rs :: frames => .alternatives (Regex.ofItems items.reverse :: rs) :: frames
  | frames => .alternatives [Regex.ofItems items.reverse] :: frames

/-- Reads a pattern from some place in it to its end. The items are those since the last
parenthesis or bar, the last one first. -/
def readFrom : Nat → List Frame → List Regex → Reader Regex
  | 0, _, _ => failure
  | fuel + 1, frames, items => do
    skipBlank
    match (← get).rest with
    | [] =>
      match closeAlternatives items frames with
      | (r, []) => return r
      | _ => failure
    | '(' :: _ =>
      let outer := (← get).verbose
      match ← opening with
      | .flags verbose =>
        modify fun c => { c with verbose := verbose.getD outer }
        readFrom fuel frames (.flagChange :: items)
      | .group name verbose =>
        modify fun c => { c with verbose := verbose.getD outer }
        readFrom fuel (.group name items outer :: frames) []
    | ')' :: _ =>
      match closeAlternatives items frames with
      | (r, .group name before verbose :: frames) =>
        modify fun c => { c with verbose := verbose }
        advance 1
        readFrom fuel frames (.group name r :: before)
      | _ => failure
    | '|' :: _ =>
      advance 1
      readFrom fuel (nextAlternative items frames) []
    | '[' :: _ =>
      let height ← charSet
      readFrom fuel frames (.brackets height :: items)
    | '?' :: _ | '*' :: _ | '+' :: _ =>
      let items ← repeatLast items
      advance 1
      laziness
      readFrom fuel frames items
    | '\x7b' :: _ =>
      let items ← repeatLast items
      countedRepetition
      readFrom fuel frames items
    | '\\' :: _ =>
      let _ ← escape
      readFrom fuel frames (.atom :: items)
    | _ :: _ =>
      advance 1
      readFrom fuel frames (.atom :: items)

/-- The regular expression that a pattern is, if it is one. -/
def read (pattern : String) : Option Regex := do
  let cs := pattern.toList
  let (r, _) ← (readFrom (cs.length + 1) [] []).run ⟨cs, false, []⟩
  if r.height ≤ heightLimit then some r else none

end SplQuery.Regex
