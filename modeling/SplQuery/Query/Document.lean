import SplQuery.Json.Records
import SplQuery.Query.Parse
import SplQuery.Query.Record

/-!
# Parsed queries as documents

The document of a parsed query: whether it is right, the query, its errors, and its tokens.
-/

namespace SplQuery

/-- An error with the token at which it starts. -/
def ParseError.toJson (e : ParseError) : Json := .object [
  ("kind", .string e.kind.name), ("message", .string e.message),
  ("token", .option Token.toJson e.token), ("location", e.location.toJson),
  ("hint", .option .string e.hint)]

namespace ParsedQuery

/-- The query as a record. -/
def record (q : ParsedQuery) : Record := q.query.record (.ofText q.text)

/-- The members of the document, the tokens left aside. -/
def members (q : ParsedQuery) : List (String × Json) := [
  ("success", .bool q.success), ("ast", q.record.toJson),
  ("lexErrors", .list LexError.toJson q.lexErrors),
  ("parseErrors", .list ParseError.toJson q.parseErrors)]

/-- The tokens as a member of the document. -/
def tokensMember (q : ParsedQuery) : String × Json := ("tokens", .list Token.toJson q.tokens)

/-- The document of a parsed query. -/
def toJson (q : ParsedQuery) : Json := .object (q.members ++ [q.tokensMember])

end ParsedQuery

end SplQuery
