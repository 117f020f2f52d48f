import SplQuery.Catalog.Description
import SplQuery.Catalog.Lookup
import SplQuery.CommandLine.Request
import SplQuery.Lexeme.Listing
import SplQuery.Pattern.Description
import SplQuery.Query.Document
import SplQuery.Record.Listing
import SplQuery.Report.Write
import SplQuery.Tree.Dump

/-!
# Answers to requests

`Request.answer` says what a request writes and with which status it ends, given what there is to
be read. The status is zero if all is well, one if something is wrong with what was asked about,
and two if the command line itself is wrong. It is 101 where the program cannot go on.
-/

namespace SplQuery.CommandLine

/-- Why a text cannot be read. -/
inductive ReadError where
  | notFound
  | denied
  | notDirectory
  | isDirectory
  | notText
  | other (message : String)
  deriving DecidableEq, Repr

/-- What the user is told. -/
def ReadError.message : ReadError → String
  | .notFound => "No such file or directory (os error 2)"
  | .denied => "Permission denied (os error 13)"
  | .notDirectory => "Not a directory (os error 20)"
  | .isDirectory => "Is a directory (os error 21)"
  | .notText => "stream did not contain valid UTF-8"
  | .other message => message

/-- What there is to be read, and where answers go. -/
structure Surroundings where
  /-- the standard input -/
  input : Except ReadError String
  /-- the files, by their paths -/
  file : String → Except ReadError String
  /-- whether answers go to a terminal -/
  terminal : Bool

/-- What is written, and the status at the end. -/
structure Answer where
  status : Nat
  output : String
  errors : String
  deriving DecidableEq, Repr

namespace Answer

/-- Nothing but an output. -/
def ofOutput (output : String) : Answer := ⟨0, output, ""⟩

/-- Nothing but an error. -/
def ofError (message : String) (status : Nat) : Answer := ⟨status, "", "error: " ++ message ++ "\n"⟩

/-- The program ends at a list that is too long. Where in the program that was is left out. -/
def overflow : Answer := ⟨101, "", "capacity overflow\n"⟩

end Answer

/-- The text of a query and what it is called. -/
structure LoadedQuery where
  text : String
  path : Option String
  deriving DecidableEq, Repr

/-- Loads a query, or says why it cannot be loaded. -/
def Source.load (s : Surroundings) : Source → Except String LoadedQuery
  | .given text => .ok ⟨text, none⟩
  | .input =>
    match s.input with
    | .ok text => .ok ⟨text, some "<stdin>"⟩
    | .error e => .error ("failed to read stdin: " ++ e.message)
  | .file path =>
    match s.file path with
    | .ok text => .ok ⟨text, some path⟩
    | .error e => .error ("failed to read '" ++ path ++ "': " ++ e.message)
  | .missing => .error "query is required: use a positional argument or -q/--query"

/-- Whether reports have colours. -/
def Coloring.applies (s : Surroundings) : Coloring → Bool
  | .auto => s.terminal
  | .always => true
  | .never => false

/-- A document and a line feed. -/
def documentText (j : Json) : String := j.pretty ++ "\n"

/-- The report on what is wrong with a query, if anything is. -/
def reportOn (q : ParsedQuery) (path : Option String) (colors : Bool) : String :=
  if q.success then ""
  else
    let report := Report.writeAll q.text ⟨colors, path⟩ q.allDiagnostics
    if report.toList.getLast? = some '\n' then report else report ++ "\n"

/-- The tokens of a text. -/
def answerTokens (text : String) (spans json : Bool) : Answer :=
  let stream := tokenize text
  {
    status := if stream.errors.isEmpty then 0 else 1
    output := if json then documentText stream.toJson else stream.listing spans
    errors := stream.errorListing }

/-- A query in some form. Where the form does not show the errors a report on them comes with
it. -/
def answerQuery (loaded : LoadedQuery) (form : QueryForm) (limit : Nat) (colors : Bool) : Answer :=
  match parseQuery? loaded.text limit with
  | none => .overflow
  | some q =>
    let report := reportOn q loaded.path colors
    match form with
    | .document => .ofOutput (documentText q.toJson)
    | .tree spans => ⟨0, q.tree.dump ⟨true, spans⟩, report⟩
    | .listing => ⟨0, q.record.listing ++ "\n", report⟩

/-- A report on what is wrong with a query. -/
def answerCheck (loaded : LoadedQuery) (limit : Nat) (colors : Bool) : Answer :=
  match parseQuery? loaded.text limit with
  | none => .overflow
  | some q => ⟨if q.success then 0 else 1, "", reportOn q loaded.path colors⟩

/-- What is known about a name, as a document. -/
def infoDocument (name : String) : Json :=
  let member (key : String) (value : Option Json) := (value.map fun v => (key, v)).toList
  .object (
    member "command" ((Catalog.commandInfo? name).map (·.toJson)) ++
    member "usage" ((CommandSyntax.usage? name).map .string) ++
    member "function" ((Catalog.functionInfo? name).map (·.toJson)))

/-- What is known about a name: some are names both of a command and of a function. -/
def answerInfo (name : String) (json : Bool) : Answer :=
  let command := Catalog.commandInfo? name
  let function := Catalog.functionInfo? name
  if command.isNone && function.isNone then
    .ofError ("unknown command or function: " ++ name) 1
  else if json then .ofOutput (documentText (infoDocument name))
  else
    .ofOutput ("\n".intercalate (
      command.toList.map (·.describe (CommandSyntax.usage? name)) ++
      function.toList.map (·.describe)))

/-- Whether a text matches the arguments of a command. -/
def answerPatterns (entry : CommandSyntax) (text : String) (json : Bool) : Answer :=
  let result := entry.matchText text
  {
    status := if result.matched then 0 else 1
    output := if json then documentText result.toJson else entry.describe result
    errors := "" }

/-- What is answered about the query of a source. -/
def withQuery (s : Surroundings) (source : Source) (answer : LoadedQuery → Answer) : Answer :=
  match source.load s with
  | .ok loaded => answer loaded
  | .error message => .ofError message 1

namespace Request

/-- The answer to a request. -/
def answer (s : Surroundings) : Request → Answer
  | .tokens source spans json =>
    withQuery s source fun loaded => answerTokens loaded.text spans json
  | .query source form limit coloring =>
    withQuery s source fun loaded => answerQuery loaded form limit (coloring.applies s)
  | .check source limit coloring =>
    withQuery s source fun loaded => answerCheck loaded limit (coloring.applies s)
  | .info name json => answerInfo name json
  | .patterns command source json =>
    match CommandSyntax.find? command with
    | none => .ofError ("no syntax pattern for \x60" ++ command ++ "\x60") 1
    | some entry => withQuery s source fun loaded => answerPatterns entry loaded.text json

end Request

/-- The answer to a command line. -/
def answerArguments (s : Surroundings) (arguments : List String) : Answer :=
  match Request.ofArguments arguments with
  | .ok request => request.answer s
  | .error e => .ofError e.message 2

end SplQuery.CommandLine
