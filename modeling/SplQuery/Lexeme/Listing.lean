import SplQuery.Lexeme.Token
import SplQuery.Text.Escaped

/-!
# Tokens in writing

One line for each token: its kind, where it stands if that is asked for, and its text.
-/

namespace SplQuery

/-- Where a token stands, in bytes and by its line and column. -/
def Token.whereabouts (t : Token) : String :=
  " [" ++ toString t.start ++ ".." ++ toString t.stop ++ "] " ++
    toString t.location.first.line ++ ":" ++ toString t.location.first.column

/-- The line of a token. -/
def Token.line (t : Token) (spans : Bool) : String :=
  t.kind.name ++ (if spans then t.whereabouts else "") ++ " " ++ Text.shown t.text

namespace TokenStream

/-- The lines of the tokens, each ended by a line feed. -/
def listing (s : TokenStream) (spans : Bool) : String :=
  String.join (s.tokens.map fun t => t.line spans ++ "\n")

/-- The lines of the errors, each ended by a line feed. -/
def errorListing (s : TokenStream) : String :=
  String.join (s.errors.map fun e =>
    "error: " ++ e.message ++ " at " ++ toString e.location.first.line ++ ":" ++
      toString e.location.first.column ++ "\n")

end TokenStream

end SplQuery
