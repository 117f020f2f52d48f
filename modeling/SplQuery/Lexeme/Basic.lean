import SplQuery.Kind.Basic
import SplQuery.Text.Span

/-!
# Lexemes

A lexeme is a stretch of the query with a kind. Its text is carried with it, so that a list of
lexemes is a text cut into pieces.
-/

namespace SplQuery

/-- A stretch of text of one kind. -/
structure Lexeme where
  kind : Kind
  /-- the place where it starts, in bytes -/
  start : Nat
  text : String
  deriving DecidableEq, Repr

namespace Lexeme

/-- The place after the last byte. -/
def stop (l : Lexeme) : Nat := l.start + l.text.utf8ByteSize

/-- The stretch that the lexeme covers. -/
def span (l : Lexeme) : Span := ⟨l.start, l.stop⟩

/-- Whether the lexeme is trivia. -/
def isTrivia (l : Lexeme) : Bool := l.kind.isTrivia

end Lexeme

end SplQuery
