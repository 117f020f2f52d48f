import SplQuery.Text.Characters

/-!
# Reading regular expressions

A `Reader` goes through a pattern and may find that it is no regular expression. In the verbose
form of patterns, blanks and comments between the parts are passed over.

Which patterns are regular expressions is for `regex-syntax` to say, a library that is not a part of
this one. Version 0.8 of it is followed here as its syntax is documented, with the settings that its
parser begins with: patterns are not verbose until a flag makes them so, there are no octal codes,
and there are at most 250 levels. Only the names of the groups are asked for, so the syntax of a
pattern is followed and not its meaning: a class is not looked up by its name, and what a flag does
to the text that is matched is left out. Blanks are those characters that `Text.isBlank` has.
-/

namespace SplQuery.Regex

/-- How far a pattern has been read. -/
structure Cursor where
  rest : List Char
  /-- whether blanks and comments are passed over -/
  verbose : Bool
  /-- the names of the groups so far -/
  names : List String

/-- A step of reading, which fails if the pattern is wrong. -/
abbrev Reader := StateT Cursor Option

/-- Drops blanks, and comments from `#` to the end of the line. -/
def dropBlank (inComment : Bool) : List Char → List Char
  | [] => []
  | c :: cs =>
    if inComment then dropBlank (c != '\n') cs
    else if Text.isBlank c then dropBlank false cs
    else if c = '#' then dropBlank true cs
    else c :: cs

/-- The first character that is not blank; one `#` counts as blank. -/
def firstSolid? (afterHash : Bool) : List Char → Option Char
  | [] => none
  | c :: cs =>
    if Text.isBlank c then firstSolid? afterHash cs
    else if !afterHash && c == '#' then firstSolid? true cs
    else some c

namespace Reader

/-- The next character; there must be one. -/
def need : Reader Char := do (← get).rest.head?

/-- Whether the pattern goes on with a text. -/
def isAt (text : String) : Reader Bool := return text.toList.isPrefixOf (← get).rest

/-- Goes on by some characters. -/
def advance (count : Nat) : Reader Unit :=
  modify fun c => { c with rest := c.rest.drop count }

/-- Passes over blanks and comments if the pattern is verbose. -/
def skipBlank : Reader Unit :=
  modify fun c => if c.verbose then { c with rest := dropBlank false c.rest } else c

/-- Goes on by a character, and over blanks and comments. -/
def step : Reader Unit := do
  advance 1
  skipBlank

/-- The character after the next one, blanks left aside if the pattern is verbose. -/
def afterNext? : Reader (Option Char) := do
  let c ← get
  let rest := c.rest.tail
  return if c.verbose then (firstSolid? false rest).or rest.head? else rest.head?

/-- Reads characters of a class, at most so many. -/
def collectFrom (member : Char → Bool) : Nat → Reader (List Char)
  | 0 => return []
  | fuel + 1 => do
    match (← get).rest with
    | [] => return []
    | c :: _ =>
      unless member c do return []
      step
      return c :: (← collectFrom member fuel)

/-- Reads the characters of a class that come next. -/
def collect (member : Char → Bool) : Reader (List Char) := do
  collectFrom member (← get).rest.length

/-- Reads a given character. -/
def expect (c : Char) : Reader Unit := do
  guard ((← need) == c)
  advance 1

end Reader

end SplQuery.Regex
