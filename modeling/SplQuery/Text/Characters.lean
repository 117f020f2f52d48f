/-!
# Characters

A set of characters is given by the places in the order of code points at which membership changes:
the first one starts a run of members, the second ends it, and so on. Blank characters count as
white space when the ends of a text are trimmed. Names of commands, functions, clauses and options
are compared without regard to the case of the ASCII letters; no other letter has its case folded.
-/

namespace SplQuery.Text

/-- Whether a character is in the set given by the code points at which membership changes. -/
def inRuns (changes : List Nat) (c : Char) : Bool :=
  (changes.takeWhile (· ≤ c.toNat)).length % 2 == 1

/-- White space, as Unicode defines it: the ASCII blanks and the other characters with the
property `White_Space`. -/
def isBlank (c : Char) : Bool :=
  let n := c.toNat
  (9 ≤ n && n ≤ 13) || n == 0x20 || n == 0x85 || n == 0xA0 || n == 0x1680 ||
  (0x2000 ≤ n && n ≤ 0x200A) || n == 0x2028 || n == 0x2029 || n == 0x202F || n == 0x205F ||
  n == 0x3000

/-- Removes the blank characters at both ends. -/
def trimChars (cs : List Char) : List Char :=
  ((cs.dropWhile isBlank).reverse.dropWhile isBlank).reverse

/-- Removes the blank characters at both ends. -/
def trim (s : String) : String := String.ofList (trimChars s.toList)

/-- Whether two texts agree once their ASCII letters are in lower case. -/
def sameName (a b : String) : Bool := a.toLower == b.toLower

end SplQuery.Text
