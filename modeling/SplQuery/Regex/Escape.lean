import SplQuery.Regex.Reader

/-!
# Escapes in regular expressions

What a backslash may stand before: a character that has a meaning without it or one that has none,
the code of a character, the letter of a class, or a condition on a place.

As in `regex-syntax`, any ASCII character that is neither a letter nor a digit may stand for itself,
other characters may not. `\x`, `\u` and `\U` take two, four and eight digits or any number of them
in braces, `\p` and `\P` take a letter or any name in braces, `\b` may have the name of a special
boundary in braces, and `\<` and `\>` are boundaries. References to groups are refused.
-/

namespace SplQuery.Regex

open Reader

/-- What stands for one position of the matched text, or for a condition on a place. -/
inductive Primitive where
  | literal (c : Char)
  | shortClass
  | assertion
  deriving DecidableEq, Repr

/-- A digit of base sixteen. -/
def isHexDigit (c : Char) : Bool :=
  c.isDigit || ('a' ≤ c && c ≤ 'f') || ('A' ≤ c && c ≤ 'F')

/-- The value of a digit of base sixteen. -/
def hexValue (c : Char) : Nat :=
  if c.isDigit then c.toNat - '0'.toNat else c.toLower.toNat - 'a'.toNat + 10

/-- The character whose code is given by digits of base sixteen. -/
def charOfHex? (digits : List Char) : Option Char :=
  let n := digits.foldl (fun n c => 16 * n + hexValue c) 0
  if h : n.isValidChar then some (Char.ofNatAux n h) else none

/-- Reads a number of digits of base sixteen. -/
def hexDigits : Nat → Reader (List Char)
  | 0 => return []
  | n + 1 => do
    let c ← need
    guard (isHexDigit c)
    step
    return c :: (← hexDigits n)

/-- The code of a character: so many digits, or any number of them between braces. -/
def hexEscape (count : Nat) : Reader Primitive := do
  step
  let digits ← if (← need) == '\x7b' then do
      step
      let digits ← collect isHexDigit
      guard (!digits.isEmpty && (← need) == '\x7d')
      step
      pure digits
    else hexDigits count
  return .literal (← charOfHex? digits)

/-- A class of characters by its name: one letter, or any text between braces. -/
def namedClass : Reader Primitive := do
  step
  let c ← need
  if c == '\x7b' then
    step
    let _ ← collect (· != '\x7d')
    expect '\x7d'
  else
    guard (c != '\\')
    step
  return .shortClass

/-- The names of the special boundaries of words. -/
def boundaryNames : List String := ["start", "end", "start-half", "end-half"]

/-- The name of a boundary in braces, if one follows; braces may also hold a count. -/
def boundaryName : Reader Unit := do
  if ← isAt "\x7b" then
    let before ← get
    step
    let isNameChar (c : Char) : Bool := c.isAlpha || c == '-'
    if isNameChar (← need) then
      let name ← collect isNameChar
      expect '\x7d'
      guard (boundaryNames.contains (String.ofList name))
    else
      modify fun _ => before

/-- Whether a backslash before a character makes it stand for itself. -/
def isEscapable (c : Char) : Bool :=
  c.toNat < 128 && !c.isAlphanum && c != '<' && c != '>'

/-- The characters that a letter stands for after a backslash. -/
def controlChar? : Char → Option Char
  | 'a' => some '\x07'
  | 'f' => some '\x0c'
  | 't' => some '\t'
  | 'n' => some '\n'
  | 'r' => some '\r'
  | 'v' => some '\x0b'
  | _ => none

/-- A backslash and what belongs to it. -/
def escape : Reader Primitive := do
  advance 1
  match ← need with
  | 'x' => hexEscape 2
  | 'u' => hexEscape 4
  | 'U' => hexEscape 8
  | 'p' | 'P' => namedClass
  | 'd' | 's' | 'w' | 'D' | 'S' | 'W' =>
    advance 1
    return .shortClass
  | 'A' | 'z' | 'B' | '<' | '>' =>
    advance 1
    return .assertion
  | 'b' =>
    advance 1
    boundaryName
    return .assertion
  | c =>
    advance 1
    if isEscapable c then return .literal c
    return .literal (← controlChar? c)

end SplQuery.Regex
