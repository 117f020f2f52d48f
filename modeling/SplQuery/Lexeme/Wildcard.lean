import SplQuery.Lexeme.Scan

/-!
# Field patterns

A field name with stars at its ends (`host*`, `*_ip`) is one lexeme, while `price*quantity` is a
product. The scan leaves every star by itself; here a run of words, numbers and stars becomes one
lexeme when its stars stand only at its ends, nothing but a delimiter or trivia stands on either
side, and a star in front does not follow an operand that it could multiply.
-/

namespace SplQuery

namespace Wildcard

/-- What a run consists of. -/
def isPart (k : Kind) : Bool := k.isWord || k == .numberLiteral || k == .multiply

/-- What may stand before a field pattern. -/
def opensBefore (k : Kind) : Bool :=
  k.isTrivia || k matches .comma | .lparen | .lbracket | .pipe | .equals | .notEquals

/-- What may stand after a field pattern. -/
def opensAfter (k : Kind) : Bool := k.isTrivia || k matches .comma | .rparen | .rbracket | .pipe

/-- What ends an operand, so that a star after it multiplies. -/
def endsOperand (k : Kind) : Bool :=
  k matches .identifier | .numberLiteral | .stringLiteral | .booleanLiteral | .timeModifier
    | .rparen

/-- Whether the stars of a run stand only at its ends, around at least one other part. -/
def starsAtEnds (run : List Kind) : Bool :=
  let core := ((run.dropWhile (· == .multiply)).reverse.dropWhile (· == .multiply))
  run.contains .multiply && !core.isEmpty && !core.contains .multiply

/-- Whether a run is a field pattern, given the kinds before it, nearest first, and the kind after
it. -/
def isPattern (before : List Kind) (run : List Kind) (after : Option Kind) : Bool :=
  starsAtEnds run && before.head?.all opensBefore && after.all opensAfter &&
    !(run.head? == some .multiply && (before.find? (!·.isTrivia)).any endsOperand)

/-- One lexeme in the place of several. -/
def join (run : List Lexeme) (start : Nat) : Lexeme :=
  ⟨.wildcardField, start, String.join (run.map (·.text))⟩

/-- Joins the runs that are field patterns. `before` holds the kinds of the lexemes before, nearest
first. -/
def joinRuns (before : List Kind) : List Lexeme → List Lexeme
  | [] => []
  | l :: ls =>
    if isPart l.kind then
      let run := l :: ls.takeWhile (isPart ·.kind)
      let rest := ls.dropWhile (isPart ·.kind)
      let kinds := run.map (·.kind)
      let joined := if isPattern before kinds (rest.head?.map (·.kind)) then
        [join run l.start] else run
      joined ++ joinRuns (kinds.reverse ++ before) rest
    else
      l :: joinRuns (l.kind :: before) ls
termination_by ls => ls.length
decreasing_by
  · exact Nat.lt_succ_of_le (List.dropWhile_sublist _).length_le
  · exact Nat.lt_succ_self _

end Wildcard

/-- Cuts a text into lexemes. -/
def lex (text : String) : List Lexeme := Wildcard.joinRuns [] (Scan.lexemes text.toList)

end SplQuery
