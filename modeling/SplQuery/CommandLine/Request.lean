import SplQuery.Grammar.Pipeline
import SplQuery.Query.Options

/-!
# Requests on the command line

The first word of a command line says what is asked for; words and options that qualify it follow
in any order. An option that takes a value is followed by it, as the next argument or in the same
one; behind two hyphens there are only words.
-/

namespace SplQuery.CommandLine

/-- Where the text of a query comes from. -/
inductive Source where
  /-- the command line itself -/
  | given (text : String)
  /-- the standard input -/
  | input
  | file (path : String)
  | missing
  deriving DecidableEq, Repr

/-- When reports have colours. -/
inductive Coloring where
  /-- when they go to a terminal -/
  | auto
  | always
  | never
  deriving DecidableEq, Repr

/-- In which form a query is shown. -/
inductive QueryForm where
  /-- the query for people -/
  | listing
  /-- all that parsing gave, for programs -/
  | document
  /-- the tree over the text -/
  | tree (spans : Bool)
  deriving DecidableEq, Repr

/-- What is asked for. -/
inductive Request where
  /-- the tokens of a query -/
  | tokens (source : Source) (spans json : Bool)
  /-- a query in some form -/
  | query (source : Source) (form : QueryForm) (limit : Nat) (coloring : Coloring)
  /-- whether a query is right -/
  | check (source : Source) (limit : Nat) (coloring : Coloring)
  /-- what is known about a command or a function -/
  | info (name : String) (json : Bool)
  /-- whether a text matches the arguments of a command -/
  | patterns (command : String) (source : Source) (json : Bool)
  deriving Repr

/-- What can be wrong with a command line. -/
inductive UsageError where
  | noCommand
  | unknownCommand (word : String)
  | unknownOption (text : String)
  | missingValue (option : String)
  | needlessValue (option : String)
  | badValue (option value : String)
  | repeated (option : String)
  | missingWord (name : String)
  | extraWord (word : String)
  /-- the query is given twice -/
  | twoQueries
  deriving DecidableEq, Repr

/-- What the user is told. -/
def UsageError.message : UsageError → String
  | .noCommand => "a command is required: tokens, ast, check, info or patterns"
  | .unknownCommand word => "unrecognized command '" ++ word ++ "'"
  | .unknownOption text => "unexpected argument '" ++ text ++ "' found"
  | .missingValue option => "a value is required for '--" ++ option ++ "' but none was supplied"
  | .needlessValue option => "unexpected value for '--" ++ option ++ "' found"
  | .badValue option value => "invalid value '" ++ value ++ "' for '" ++ option ++ "'"
  | .repeated option => "the argument '--" ++ option ++ "' cannot be used multiple times"
  | .missingWord name => "a required argument was not provided: " ++ name
  | .extraWord word => "unexpected argument '" ++ word ++ "' found"
  | .twoQueries => "the query cannot be given both as text and as a file"

/-! ## Options -/

/-- The options. -/
inductive Switch where
  | query | spans | json | raw | limit | color | verbose
  deriving DecidableEq, Repr

namespace Switch

/-- Every option. -/
def all : List Switch := [.query, .spans, .json, .raw, .limit, .color, .verbose]

/-- The word for an option; `verbose` only has a letter. -/
def name : Switch → String
  | .query => "query"
  | .spans => "spans"
  | .json => "json"
  | .raw => "raw"
  | .limit => "recursion-limit"
  | .color => "color"
  | .verbose => "verbose"

/-- Whether an option is followed by a value. -/
def takesValue : Switch → Bool
  | .query | .limit | .color => true
  | _ => false

/-- The option with a word. -/
def ofName? (word : String) : Option Switch :=
  all.find? fun s => s.name == word && s != .verbose

/-- The option with a letter. -/
def ofLetter? : Char → Option Switch
  | 'q' => some .query
  | 'v' => some .verbose
  | _ => none

end Switch

/-- A part of a command line. -/
inductive Item where
  | word (text : String)
  /-- an option, with its value if it takes one -/
  | option (switch : Switch) (value : String)
  deriving DecidableEq, Repr

/-- An argument that has been read: its items, and an option whose value is the next argument. -/
abbrev Step := List Item × Option Switch

/-- Reads the letters behind a single hyphen. -/
def readLetters (allowed : List Switch) (whole : String) : List Char → Except UsageError Step
  | [] => .ok ([], none)
  | c :: cs =>
    match (Switch.ofLetter? c).filter (allowed.contains ·) with
    | none => .error (.unknownOption whole)
    | some s =>
      if s.takesValue then
        match cs with
        | [] => .ok ([], some s)
        | '=' :: value => .ok ([.option s (String.ofList value)], none)
        | value => .ok ([.option s (String.ofList value)], none)
      else do
        let (items, waiting) ← readLetters allowed whole cs
        return (.option s "" :: items, waiting)

/-- Reads the word behind two hyphens. -/
def readWord (allowed : List Switch) (chars : List Char) : Except UsageError Step :=
  let name := String.ofList (chars.takeWhile (· ≠ '='))
  match (Switch.ofName? name).filter (allowed.contains ·) with
  | none => .error (.unknownOption ("--" ++ name))
  | some s =>
    match chars.dropWhile (· ≠ '='), s.takesValue with
    | [], true => .ok ([], some s)
    | [], false => .ok ([.option s ""], none)
    | _ :: value, true => .ok ([.option s (String.ofList value)], none)
    | _ :: _, false => .error (.needlessValue s.name)

/-- Reads one argument. -/
def readArgument (allowed : List Switch) (text : String) : Except UsageError Step :=
  match text.toList with
  | '-' :: '-' :: chars => readWord allowed chars
  | '-' :: c :: chars => readLetters allowed text (c :: chars)
  | _ => .ok ([.word text], none)

/-- Whether an argument is not taken for a value. -/
def looksLikeOption (text : String) : Bool :=
  text.toList.head? == some '-' && text != "-"

/-- Reads arguments, the first of which is the value of an option that waits for one. -/
def readArguments (allowed : List Switch) :
    Option Switch → List String → Except UsageError (List Item)
  | none, [] => .ok []
  | some s, [] => .error (.missingValue s.name)
  | none, text :: rest =>
    if text = "--" then .ok (rest.map .word)
    else do
      let (items, waiting) ← readArgument allowed text
      return items ++ (← readArguments allowed waiting rest)
  | some s, text :: rest =>
    if looksLikeOption text then .error (.missingValue s.name)
    else do return .option s text :: (← readArguments allowed none rest)

/-! ## Requests -/

/-- The words among items. -/
def wordsOf (items : List Item) : List String :=
  items.filterMap fun
    | .word text => some text
    | .option .. => none

/-- The values that an option is given. -/
def valuesOf (items : List Item) (s : Switch) : List String :=
  items.filterMap fun
    | .word _ => none
    | .option t value => if t = s then some value else none

/-- The value of an option that may be given once. -/
def value? (items : List Item) (s : Switch) : Except UsageError (Option String) :=
  match valuesOf items s with
  | [] => .ok none
  | [value] => .ok (some value)
  | _ => .error (.repeated s.name)

/-- Whether an option without a value is given. -/
def has (items : List Item) (s : Switch) : Except UsageError Bool :=
  return (← value? items s).isSome

/-- How deep a query may be nested. -/
def limitOf (items : List Item) : Except UsageError Nat := do
  match ← value? items .limit with
  | none => return defaultLimit
  | some text =>
    match Text.readSmall? text with
    | some n => return n
    | none => throw (.badValue "recursion-limit" text)

/-- When reports have colours. -/
def coloringOf (items : List Item) : Except UsageError Coloring := do
  match ← value? items .color with
  | none | some "auto" => return .auto
  | some "always" => return .always
  | some "never" => return .never
  | some text => throw (.badValue "color" text)

/-- Where the query comes from: an option, or the only word of some. -/
def sourceOf (items : List Item) (words : List String) : Except UsageError Source := do
  match ← value? items .query, words with
  | _, _ :: word :: _ => throw (.extraWord word)
  | some text, [] => return .given text
  | some _, _ => throw .twoQueries
  | none, [] => return .missing
  | none, [path] =>
    if path = "" then throw (.badValue "QUERY" path)
    else return if path = "-" then .input else .file path

namespace Request

/-- The request for the tokens of a query. -/
def readTokens (arguments : List String) : Except UsageError Request := do
  let items ← readArguments [.query, .spans, .json, .verbose] none arguments
  return .tokens (← sourceOf items (wordsOf items)) (← has items .spans) (← has items .json)

/-- The request for a query in some form. -/
def readQuery (arguments : List String) : Except UsageError Request := do
  let items ← readArguments [.query, .raw, .spans, .json, .limit, .color, .verbose] none arguments
  let raw ← has items .raw
  let spans ← has items .spans
  let form := if ← has items .json then .document else if raw then .tree spans else .listing
  return .query (← sourceOf items (wordsOf items)) form (← limitOf items) (← coloringOf items)

/-- The request to check a query. -/
def readCheck (arguments : List String) : Except UsageError Request := do
  let items ← readArguments [.query, .limit, .color, .verbose] none arguments
  return .check (← sourceOf items (wordsOf items)) (← limitOf items) (← coloringOf items)

/-- The request for what is known about a name. -/
def readInfo (arguments : List String) : Except UsageError Request := do
  let items ← readArguments [.json, .verbose] none arguments
  match wordsOf items with
  | [] => throw (.missingWord "NAME")
  | [name] => return .info name (← has items .json)
  | _ :: word :: _ => throw (.extraWord word)

/-- The request to match a text against the arguments of a command. -/
def readPatterns (arguments : List String) : Except UsageError Request := do
  let items ← readArguments [.query, .json, .verbose] none arguments
  match wordsOf items with
  | [] => throw (.missingWord "COMMAND")
  | command :: words => return .patterns command (← sourceOf items words) (← has items .json)

/-- Reads a command line. -/
def ofArguments : List String → Except UsageError Request
  | [] => throw .noCommand
  | "tokens" :: rest => readTokens rest
  | "ast" :: rest => readQuery rest
  | "check" :: rest => readCheck rest
  | "info" :: rest => readInfo rest
  | "patterns" :: rest => readPatterns rest
  | word :: _ => throw (.unknownCommand word)

/-- Where the text that a request is about comes from. -/
def source? : Request → Option Source
  | .tokens source _ _ => some source
  | .query source _ _ _ => some source
  | .check source _ _ => some source
  | .info _ _ => none
  | .patterns _ source _ => some source

end Request

end SplQuery.CommandLine
