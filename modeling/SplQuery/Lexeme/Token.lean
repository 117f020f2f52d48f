import SplQuery.Lexeme.Wildcard
import SplQuery.Text.Location

/-!
# Tokens and lexical errors

The lexemes of a query without its trivia, each with its lines and columns, and one error for
each lexeme of garbage.
-/

namespace SplQuery

/-- A lexeme with a meaning of its own, and where it stands. -/
structure Token where
  kind : Kind
  text : String
  location : Location
  deriving DecidableEq, Repr

/-- A stretch of text that no rule describes. -/
structure LexError where
  text : String
  location : Location
  deriving DecidableEq, Repr

/-- The tokens and the errors of a query. -/
structure TokenStream where
  tokens : List Token
  errors : List LexError
  deriving DecidableEq, Repr

namespace Token

/-- The place of the first byte. -/
def start (t : Token) : Nat := t.location.span.start

/-- The place after the last byte. -/
def stop (t : Token) : Nat := t.location.span.stop

end Token

namespace LexError

/-- What the user is told. -/
def message (e : LexError) : String := "unrecognized input \x60" ++ e.text ++ "\x60"

end LexError

namespace TokenStream

/-- Sorts the lexemes of a text into tokens and errors. -/
def ofLexemes (text : List Char) (lexemes : List Lexeme) : TokenStream :=
  let index := LineIndex.ofText text
  {
    tokens := (lexemes.filter (!·.isTrivia)).map fun l => ⟨l.kind, l.text, index.location l.span⟩
    errors := (lexemes.filter (·.kind == .garbage)).map fun l => ⟨l.text, index.location l.span⟩ }

end TokenStream

/-- The tokens and the lexical errors of a query. -/
def tokenize (text : String) : TokenStream := .ofLexemes text.toList (lex text)

end SplQuery
