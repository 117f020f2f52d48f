import SplQuery.Regex.Escape

/-!
# Classes in brackets

A class in brackets lists characters, ranges and other classes, and combines them with `&&`, `--`
and `~~`. Only its depth is kept.

As in `regex-syntax`, a closing bracket stands for itself directly behind the opening one, as do
minus signs there and in front of a closing bracket or another minus sign. The ends of a range are
single characters in order. What looks like a class with a name but is none is a class in brackets.
Every operator adds a level, and so do items side by side.
-/

namespace SplQuery.Regex

open Reader

/-- The classes that have a name between `[:` and `:]`. -/
def posixNames : List String := [
  "alnum", "alpha", "ascii", "blank", "cntrl", "digit", "graph", "lower", "print", "punct",
  "space", "upper", "word", "xdigit"]

/-- What is open around a place in a class. -/
inductive SetFrame where
  /-- a bracket, after items of the given heights -/
  | bracket (before : List Nat)
  /-- an operator, after an operand of the given height -/
  | operator (left : Nat)

/-- The height of items side by side. -/
def itemsHeight : List Nat → Nat
  | [] => 0
  | [h] => h
  | hs => hs.foldl max 0 + 1

/-- The height up to the end of an operand, and what is open around it. -/
def closeOperator (items : List Nat) : List SetFrame → Nat × List SetFrame
  | .operator left :: frames => (max left (itemsHeight items) + 1, frames)
  | frames => (itemsHeight items, frames)

/-- A class with a name between `[:` and `:]`, if one follows. -/
def posixClass : Reader Bool := do
  match (← get).rest with
  | '[' :: ':' :: cs =>
    let cs := if cs.head? = some '^' then cs.tail else cs
    let name := String.ofList (cs.takeWhile (· ≠ ':'))
    match cs.dropWhile (· ≠ ':') with
    | ':' :: ']' :: rest =>
      if posixNames.contains name then
        modify fun c => { c with rest := rest }
        return true
      return false
    | _ => return false
  | _ => return false

/-- Reads the minus signs at the start of a class, at most so many. -/
def leadingMinus : Nat → Reader (List Nat)
  | 0 => return []
  | fuel + 1 => do
    if (← need) == '-' then
      step
      let _ ← need
      return 0 :: (← leadingMinus fuel)
    return []

/-- Reads the start of a class: a bracket, a negation, and what stands for itself only here. -/
def openSet : Reader (List Nat) := do
  step
  if (← need) == '^' then step
  let items ← leadingMinus (← get).rest.length
  if items.isEmpty && (← need) == ']' then
    step
    let _ ← need
    return [0]
  return items

/-- A character of a class or what stands for some. -/
def setPrimitive : Reader Primitive := do
  match ← need with
  | '\\' => escape
  | c =>
    advance 1
    return .literal c

/-- A member of a class: a character, a range of them, or a class written in short. -/
def setItem : Reader Unit := do
  let first ← setPrimitive
  skipBlank
  let c ← need
  let next ← afterNext?
  if c != '-' || next == some ']' || next == some '-' then
    guard (first != .assertion)
  else
    step
    match first, ← setPrimitive with
    | .literal low, .literal high => guard (low ≤ high)
    | _, _ => failure

/-- Reads a class from some place in it to its end. -/
def setFrom : Nat → List SetFrame → List Nat → Reader Nat
  | 0, _, _ => failure
  | fuel + 1, frames, items => do
    skipBlank
    let c ← need
    if c == '[' then
      if ← posixClass then setFrom fuel frames (0 :: items)
      else setFrom fuel (.bracket items :: frames) (← openSet)
    else if c == ']' then
      advance 1
      let (height, frames) := closeOperator items frames
      match frames with
      | [] | [.bracket _] => return height + 1
      | .bracket before :: frames => setFrom fuel frames ((height + 1) :: before)
      | .operator _ :: _ => failure
    else if (← isAt "&&") || (← isAt "--") || (← isAt "~~") then
      advance 2
      let (height, frames) := closeOperator items frames
      setFrom fuel (.operator height :: frames) []
    else
      setItem
      setFrom fuel frames (0 :: items)

/-- A class in brackets. -/
def charSet : Reader Nat := do
  let fuel := (← get).rest.length
  setFrom fuel [.bracket []] (← openSet)

end SplQuery.Regex
