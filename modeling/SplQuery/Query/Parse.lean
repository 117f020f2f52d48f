import SplQuery.Grammar.Pipeline
import SplQuery.Lexeme.Token
import SplQuery.Meaning.Pipeline

/-!
# From a text to a query

`parseQuery` gives all that is found in a text: its tokens, the tree over them, the query that the
tree stands for, and everything that is wrong. There always is a query, if only a part of what was
meant. `parseQuery?` is what the program has to answer with: nothing, where it ends because a
command adds more fields than can be listed.
-/

namespace SplQuery

/-- Something wrong with the structure of a query, and where. -/
structure ParseError where
  kind : DiagnosticKind
  message : String
  /-- the first token that ends behind the place where the error starts -/
  token : Option Token
  location : Location
  /-- what may help -/
  hint : Option String
  deriving DecidableEq, Repr

namespace ParseError

/-- A diagnostic of a text with some tokens. -/
def ofDiagnostic (text : List Char) (tokens : List Token) (d : Diagnostic) : ParseError where
  kind := d.kind
  message := d.message
  token := tokens.find? fun t => d.span.start < t.stop
  location := Location.ofSpan text d.span
  hint := d.hints.head?

end ParseError

/-- All that is found in a text. -/
structure ParsedQuery where
  text : List Char
  /-- the tree over the text -/
  tree : Placed
  query : Pipeline
  tokens : List Token
  lexErrors : List LexError
  /-- what is wrong with the structure, in the order in which it was noted -/
  diagnostics : List Diagnostic

namespace ParsedQuery

/-- What is wrong with the structure, one error for each place. -/
def parseErrors (q : ParsedQuery) : List ParseError :=
  (Diagnostic.filtered q.diagnostics).map (.ofDiagnostic q.text q.tokens)

/-- Whether nothing is wrong. -/
def success (q : ParsedQuery) : Bool := q.lexErrors.isEmpty && q.parseErrors.isEmpty

/-- How many errors there are. -/
def errorCount (q : ParsedQuery) : Nat := q.lexErrors.length + q.parseErrors.length

/-- A lexical error as a diagnostic. -/
def lexDiagnostic (e : LexError) : Diagnostic where
  kind := .unrecognizedInput
  span := e.location.span
  message := DiagnosticKind.unrecognizedInput.detailed ("\x60" ++ e.text ++ "\x60")
  related := []
  hints := []

/-- Everything that is wrong, lexical errors first. -/
def allDiagnostics (q : ParsedQuery) : List Diagnostic :=
  q.lexErrors.map lexDiagnostic ++ q.diagnostics

end ParsedQuery

/-- Finds all that is in a text, nested at most `limit` levels deep. -/
def parseQuery (text : String) (limit : Nat) : ParsedQuery :=
  let chars := text.toList
  let lexemes := lex text
  let stream := TokenStream.ofLexemes chars lexemes
  let parse := Parse.ofLexemes lexemes text.utf8ByteSize limit
  let tree := parse.tree.place 0
  {
    text := chars
    tree := tree
    query := tree.pipeline
    tokens := stream.tokens
    lexErrors := stream.errors
    diagnostics := parse.diagnostics }

/-- Finds all that is in a text, unless the program ends at one of the commands that it makes. -/
def parseQuery? (text : String) (limit : Nat) : Option ParsedQuery :=
  let q := parseQuery text limit
  if q.tree.lowered.all (·.isListable) then some q else none

end SplQuery
