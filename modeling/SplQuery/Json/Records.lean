import SplQuery.Catalog.Basic
import SplQuery.Json
import SplQuery.Lexeme.Token
import SplQuery.Pattern.Match

/-!
# Records as documents

Tokens, lexical errors, entries of the tables and results of matching, as they are handed over.
-/

namespace SplQuery

/-- The members that say where something stands. -/
def Location.toJson (l : Location) : Json := .object [
  ("startLine", .nat l.first.line), ("startColumn", .nat l.first.column),
  ("endLine", .nat l.last.line), ("endColumn", .nat l.last.column),
  ("startOffset", .nat l.span.start), ("endOffset", .nat l.span.stop)]

/-- A token with its place. -/
def Token.toJson (t : Token) : Json := .object [
  ("kind", .string t.kind.name), ("text", .string t.text),
  ("startOffset", .nat t.start), ("endOffset", .nat t.stop),
  ("startLine", .nat t.location.first.line), ("startColumn", .nat t.location.first.column),
  ("endLine", .nat t.location.last.line), ("endColumn", .nat t.location.last.column)]

/-- A lexical error with its place and its length in bytes. -/
def LexError.toJson (e : LexError) : Json := .object [
  ("message", .string e.message), ("text", .string e.text),
  ("offset", .nat e.location.span.start),
  ("length", .nat (e.location.span.stop - e.location.span.start)),
  ("line", .nat e.location.first.line), ("column", .nat e.location.first.column)]

/-- Tokens and errors. -/
def TokenStream.toJson (s : TokenStream) : Json := .object [
  ("tokens", .list Token.toJson s.tokens), ("errors", .list LexError.toJson s.errors)]

namespace Catalog

/-- What a command does to fields. -/
def FieldEffects.toJson (e : FieldEffects) : Json := .object [
  ("creates", .bool e.creates), ("modifies", .bool e.modifies), ("drops", .bool e.drops),
  ("preservesOthers", .bool e.preservesOthers)]

/-- A row of the command table. -/
def CommandInfo.toJson (c : CommandInfo) : Json := .object [
  ("name", .string c.name), ("aliases", .strings c.aliases),
  ("category", .string c.category.camelName), ("description", .string c.description),
  ("effects", c.effects.toJson), ("implicitFields", .strings c.implicitFields),
  ("risk", .string c.risk.camelName), ("riskNote", .option .string c.riskNote),
  ("generating", .bool c.generating), ("streaming", .bool c.streaming)]

/-- A parameter of a function. -/
def FunctionParam.toJson (p : FunctionParam) : Json := .object [
  ("name", .string p.name), ("optional", .bool p.optional), ("variadic", .bool p.variadic)]

/-- A row of the function table. -/
def FunctionInfo.toJson (f : FunctionInfo) : Json := .object [
  ("name", .string f.name), ("category", .string f.category.camelName),
  ("returnType", .string f.returnType.camelName), ("params", .list FunctionParam.toJson f.params),
  ("context", .string f.context.camelName), ("description", .string f.description)]

end Catalog

/-- A parameter with the tokens that it took. -/
def Binding.toJson (b : Binding) : Json := .object [
  ("name", .string b.name), ("ty", .string b.type.label), ("effect", .string b.effect.camelName),
  ("text", .string b.text), ("startOffset", .nat b.span.start), ("endOffset", .nat b.span.stop)]

namespace MatchResult

/-- The members of a result. -/
def members (r : MatchResult) : List (String × Json) := [
  ("matched", .bool r.matched), ("consumed", .nat r.consumed),
  ("bindings", .list Binding.toJson r.bindings), ("expected", .strings r.expected),
  ("error", .option .string r.error)]

/-- What matching a pattern gave. -/
def toJson (r : MatchResult) : Json := .object r.members

end MatchResult

end SplQuery
