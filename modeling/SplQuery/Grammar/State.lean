import SplQuery.Diagnostic.Basic
import SplQuery.Lexeme.Basic
import SplQuery.Pattern.Lookup
import SplQuery.Tree.Basic

/-!
# The state of a parse

A parse reads lexemes from left to right and puts each of them into the tree. Trivia that has been
read is held back until something is put after it or a node is opened, so that it lands outside
the node that follows. What is wrong is noted and parsing goes on.

* `Parser` — a step of a parse.
* `Parser.current`, `Parser.ahead` — looking at the lexemes to come, past trivia.
* `Parser.bump`, `Parser.node`, `Parser.wrapFrom` — building the tree.
* `Parser.report` — noting what is wrong, once for each place.
* `Parser.loop` — repetition, bounded by the number of lexemes left.

A step looks ahead only so many times before it reads a lexeme or changes its depth, and it never
reads past the end. Were one to do so, the state would hold a `Fault`.
-/

namespace SplQuery

/-- A parenthesis or bracket that has been opened. -/
structure Opener where
  kind : Kind
  span : Span
  deriving DecidableEq, Repr

/-- What never happens in a parse. -/
inductive Fault where
  /-- it went on looking without reading -/
  | stuck
  /-- it read past the end -/
  | pastEnd
  /-- it took a lexeme for one that it is not -/
  | misplaced
  deriving DecidableEq, Repr

/-- How often a parse may look ahead before it reads a lexeme or changes its depth. -/
def fullPatience : Nat := 256

/-- The state of a parse. -/
structure State where
  /-- the lexemes not yet read -/
  rest : List Lexeme
  /-- trivia that has been read but not put into the tree, in order -/
  held : List Lexeme
  /-- the children of the innermost open node, the last one first -/
  built : List Tree
  /-- what was found wrong, the last first -/
  reports : List Diagnostic
  /-- where the last report was made -/
  lastReport : Option Nat
  /-- the delimiters that are open, the innermost first -/
  openers : List Opener
  /-- the commands that are being parsed, the innermost first; `none` stands for a nested query
  and for a command without a word of its own -/
  commands : List (Option CommandWord)
  /-- how often the parse may still look ahead -/
  patience : Nat
  /-- the least that the patience has been; nothing depends on it -/
  leastPatience : Nat
  /-- the first fault -/
  fault : Option Fault
  /-- the place of the end of the query -/
  stop : Nat

namespace State

/-- The state before anything is read. -/
def start (lexemes : List Lexeme) (stop : Nat) : State where
  rest := lexemes
  held := []
  built := []
  reports := []
  lastReport := none
  openers := []
  commands := []
  patience := fullPatience
  leastPatience := fullPatience
  fault := none
  stop := stop

/-- Notes a fault, unless there is one already. -/
def withFault (s : State) (f : Fault) : State := { s with fault := s.fault.or (some f) }

/-- Reads the trivia ahead, without putting it into the tree. -/
def skipTrivia (s : State) : State :=
  { s with
    held := s.held ++ s.rest.takeWhile Lexeme.isTrivia
    rest := s.rest.dropWhile Lexeme.isTrivia }

/-- Takes note that the parse looks ahead. -/
def look (s : State) : State :=
  match s.patience with
  | 0 => s.withFault .stuck
  | n + 1 => { s with patience := n, leastPatience := min s.leastPatience n }

/-- Lets the parse look ahead again as often as at the start. -/
def refresh (s : State) : State := { s with patience := fullPatience }

/-- A lexeme as a leaf. -/
def leaf (l : Lexeme) : Tree := .leaf l.kind l.text

/-- Puts the trivia held back into the tree. -/
def drain (s : State) : State :=
  { s with held := [], built := (s.held.map leaf).reverse ++ s.built }

/-- Puts the next lexeme into the tree, after the trivia held back. -/
def bump (s : State) : State :=
  match s.rest with
  | [] => s.withFault .pastEnd
  | l :: ls =>
    let s := s.refresh.drain
    { s with rest := ls, built := leaf l :: s.built }

/-- Opens a node: its children are collected from here on. -/
def openNode (s : State) : State := { s with built := [] }

/-- Closes a node: what was collected becomes its children, after what `outer` holds. -/
def closeNode (s : State) (shape : Shape) (outer : List Tree) : State :=
  { s with built := .node shape s.built.reverse :: outer }

/-- The stretch of the lexeme ahead, or the place of the end. -/
def span (s : State) : Span := s.rest.head?.elim (.emptyAt s.stop) (·.span)

/-- How to write the innermost command, if it is known. -/
def usageHint (s : State) : Option String :=
  (s.commands.head?.join.bind fun w => CommandSyntax.usage? w.spelling).map ("usage: " ++ ·)

/-- Notes a diagnostic, with the innermost command's usage as its hint. -/
def addReport (s : State) (kind : DiagnosticKind) (span : Span) (message : String)
    (related : List Related) : State :=
  { s with reports := ⟨kind, span, message, related, s.usageHint.toList⟩ :: s.reports }

end State

/-- A step of a parse. -/
abbrev Parser := StateM State

namespace Parser

/-! ## Looking ahead -/

/-- The kind of the next lexeme past trivia, `none` at the end. -/
def current : Parser (Option Kind) := do
  modify fun s => s.skipTrivia.look
  return (← get).rest.head?.map (·.kind)

/-- The kind of the lexeme directly ahead, trivia included. -/
def adjacent : Parser (Option Kind) := do
  modify State.look
  return (← get).rest.head?.map (·.kind)

/-- The kind of the lexeme after the next one, past trivia. -/
def ahead : Parser (Option Kind) := do
  modify State.skipTrivia
  return (((← get).rest.drop 1).find? (!·.isTrivia)).map (·.kind)

/-- The stretch of the next lexeme past trivia. -/
def currentSpan : Parser Span := do
  modify State.skipTrivia
  return (← get).span

/-- The text of the next lexeme past trivia, empty at the end. -/
def currentText : Parser String := do
  modify State.skipTrivia
  return (← get).rest.head?.elim "" (·.text)

/-- Whether the next lexeme past trivia is of a kind. -/
def isAt (kind : Kind) : Parser Bool := return (← current) == some kind

/-- Whether the next lexeme past trivia is in a class. -/
def isIn (member : Kind → Bool) : Parser Bool := return (← current).any member

/-- Whether the lexeme after the next one is of a kind. -/
def isAhead (kind : Kind) : Parser Bool := return (← ahead) == some kind

/-- Whether the stage ends here: at a pipe, a closing bracket or the end. -/
def atStageEnd : Parser Bool := return (← current).all (· matches .pipe | .rbracket)

/-- Whether the lexeme directly ahead is no trivia, so that it touches the one just read. It is only
asked after a lexeme was read: at the beginning of a text there is none that could be touched. -/
def glued : Parser Bool := return (← get).rest.head?.any (!·.isTrivia)

/-- Notes a fault unless the next lexeme is in a class. -/
def require (member : Kind → Bool) : Parser Unit := do
  unless ← isIn member do
    modify (·.withFault .misplaced)

/-! ## Building the tree -/

/-- Puts the lexeme directly ahead into the tree. -/
def bump : Parser Unit := modify State.bump

/-- Puts the trivia ahead into the tree. -/
def eatTrivia : Parser Unit := modify fun s => s.skipTrivia.drain

/-- Puts the next lexeme into the tree if it is of a kind. -/
def eat (kind : Kind) : Parser Bool := do
  if ← isAt kind then
    bump
    return true
  return false

/-- Collects what `body` puts into the tree under a node. Trivia held back stays outside. -/
def node {α : Type} (shape : Shape) (body : Parser α) : Parser α := do
  modify State.drain
  let outer := (← get).built
  modify State.openNode
  let a ← body
  modify (·.closeNode shape outer)
  return a

/-- Puts the trivia ahead into the tree and remembers this place of the innermost node. -/
def mark : Parser Nat := do
  eatTrivia
  return (← get).built.length

/-- Collects what was put into the tree since a mark, and what `body` puts there, under a node. -/
def wrapFrom (mark : Nat) (shape : Shape) (body : Parser Unit) : Parser Unit := do
  let built := (← get).built
  let count := built.length - mark
  modify fun s => { s with built := built.take count }
  body
  modify (·.closeNode shape (built.drop count))

/-- A node around the lexeme ahead. -/
def single (shape : Shape) : Parser Unit := node shape bump

/-! ## Noting what is wrong -/

/-- Whether nothing was noted at this place by the last report; from now on something is. -/
def fresh (place : Nat) : Parser Bool := do
  if (← get).lastReport == some place then return false
  modify fun s => { s with lastReport := some place }
  return true

/-- Notes something at a stretch of the text, unless the last report started there too. -/
def reportAt (kind : DiagnosticKind) (span : Span) (detail : Option String) : Parser Unit := do
  if ← fresh span.start then
    modify (·.addReport kind span (kind.message detail) [])

/-- Notes something at the next lexeme. -/
def report (kind : DiagnosticKind) : Parser Unit := do
  reportAt kind (← currentSpan) none

/-- Notes something at the next lexeme, with a detail. -/
def reportWith (kind : DiagnosticKind) (detail : String) : Parser Unit := do
  reportAt kind (← currentSpan) (some detail)

/-- Puts the next lexeme, if there is one, under an `error` node. -/
def bumpAsError : Parser Unit := do
  unless (← get).rest.isEmpty do
    single .error

/-- Notes something at the next lexeme and passes over it. -/
def refuse (kind : DiagnosticKind) : Parser Unit := do
  report kind
  bumpAsError

/-- Notes something at the next lexeme, with a detail, and passes over it. -/
def refuseWith (kind : DiagnosticKind) (detail : String) : Parser Unit := do
  reportWith kind detail
  bumpAsError

/-- Puts the next lexeme into the tree if it is of a kind, and notes its lack otherwise. -/
def expect (kind : Kind) (spelling : String) : Parser Bool := do
  if ← eat kind then return true
  reportWith .expectedToken spelling
  return false

/-! ## Repetition -/

/-- Repeats a step at most `fuel` times. -/
def loopFrom {σ : Type} (body : σ → Parser (ForInStep σ)) : Nat → σ → Parser σ
  | 0, a => do
    modify (·.withFault .stuck)
    return a
  | fuel + 1, a => do
    match ← body a with
    | .done a => return a
    | .yield a => loopFrom body fuel a

/-- Repeats a step until it is done. All but one of the rounds read a lexeme. -/
def loop {σ : Type} (init : σ) (body : σ → Parser (ForInStep σ)) : Parser σ := do
  loopFrom body ((← get).rest.length + 2) init

/-- A round that is the last one unless the step in it answers `true`. -/
def roundOf (body : Parser Bool) (_ : Unit) : Parser (ForInStep Unit) :=
  return if ← body then .yield () else .done ()

/-- Repeats a step while it answers `true`. -/
def whileTrue (body : Parser Bool) : Parser Unit := loop () (roundOf body)

/-! ## Delimiters and recovery -/

/-- Takes note that the delimiter ahead is opened. -/
def pushOpener (kind : Kind) : Parser Unit := do
  let span ← currentSpan
  modify fun s => { s with openers := ⟨kind, span⟩ :: s.openers }

/-- Notes that a delimiter is not closed. The stretch meant starts at the opener, but what counts
as the place of the report is the lexeme that was found in place of the closer. -/
def reportUnclosed (kind : DiagnosticKind) (opener : Opener) : Parser Unit := do
  let here ← currentSpan
  if ← fresh here.start then
    let what := if opener.kind = .lbracket then "subsearch starts here"
      else "opening \x60(\x60 is here"
    modify (·.addReport kind ⟨opener.span.start, here.stop⟩ kind.fallback [⟨opener.span, what⟩])

/-- Reads the closer of the innermost delimiter, or notes that it is missing. -/
def close (closer : Kind) (kind : DiagnosticKind) : Parser Unit := do
  let opener := (← get).openers.head?
  modify fun s => { s with openers := s.openers.tail }
  unless ← eat closer do
    opener.forM (reportUnclosed kind)

/-- Reads one lexeme, with so many delimiters open, unless the stage ends outside all of them. -/
def skipOne (stopAtPipe : Bool) (depth : Nat) : Parser (ForInStep Nat) := do
  let step (depth : Nat) : Parser (ForInStep Nat) := do
    bump
    return .yield depth
  match ← current with
  | none => return .done depth
  | some .pipe => if stopAtPipe && depth == 0 then return .done depth else step depth
  | some .rbracket => if depth == 0 then return .done depth else step (depth - 1)
  | some .lbracket | some .lparen => step (depth + 1)
  | some .rparen => step (depth - 1)
  | some _ => step depth

/-- Reads up to a pipe or a closing bracket that stands outside all delimiters opened on the way.
Unless `stopAtPipe` holds, pipes are read over. -/
def skipBalanced (stopAtPipe : Bool) : Parser Unit := do
  let _ ← loop 0 (skipOne stopAtPipe)

/-- Notes something at the next lexeme and passes over the rest of the stage. -/
def recover (kind : DiagnosticKind) (detail : String) : Parser Unit := do
  if ← atStageEnd then
    reportWith kind detail
  else
    node .error do
      reportWith kind detail
      skipBalanced true

/-- Runs a step as part of a command. -/
def inCommand (word : Option CommandWord) (body : Parser Unit) : Parser Unit := do
  modify fun s => { s with commands := word :: s.commands }
  body
  modify fun s => { s with commands := s.commands.tail }

/-! ## Nesting -/

/-- The parts of the grammar that may be nested, as they are parsed one level further down. -/
structure Inner where
  /-- a query between brackets -/
  pipeline : Parser Unit
  /-- what a negation stands before -/
  searchNot : (Kind → Bool) → Parser Unit
  /-- the terms of a group -/
  searchTerms : Parser Unit
  /-- an expression whose operators bind at least so strongly -/
  expression : Nat → Parser Unit

/-- Goes one level further down, if there is one. At the limit this is noted, once for a query,
and what would have been nested goes under an `error` node. -/
def descend (below : Option Inner) (stopAtPipe : Bool) (body : Inner → Parser Unit) :
    Parser Unit := do
  match below with
  | some inner =>
    modify State.refresh
    body inner
    modify State.refresh
  | none =>
    let span ← currentSpan
    unless (← get).reports.any (·.kind == .recursionLimitExceeded) do
      reportAt .recursionLimitExceeded span none
    node .error (skipBalanced stopAtPipe)

end Parser

end SplQuery
