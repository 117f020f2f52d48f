import SplQuery.Kind.Basic
import SplQuery.Lexeme.Form

/-!
# How lexemes are written

The table of rules: for each kind of lexeme, the forms in which it may be written. Of two rules
that match the same stretch of text the earlier one counts, so reserved words stand before
identifiers. Reserved words are recognised in either case of their letters.
-/

namespace SplQuery

/-- A form together with the kind of lexeme that it gives. -/
structure Rule where
  form : Form
  kind : Kind

namespace Rule

open Form

/-- A lower-case letter in either case. The letters `k` and `s` have a third case variant each, the
Kelvin sign and the long s. -/
def anyCase (letter : Char) : Form :=
  .one fun c => c.toLower == letter || (letter == 'k' && c == '\u212a') ||
    (letter == 's' && c == '\u017f')

/-- A lower-case word in any mixture of cases. -/
def word (spelling : String) : Form :=
  spelling.toList.foldr (fun c f => thenOf (anyCase c) f) .done

/-- A decimal digit. -/
def digit : Form := .one Char.isDigit

/-- A character other than the given ones. -/
def except (excluded : List Char) : Form := .one fun c => !excluded.contains c

/-- A character between two copies of a quote; a backslash takes the next character of its line
with it. -/
def quotedStep (q : Char) : Form :=
  orOf (except [q, '\\']) (thenOf (char '\\') (except ['\n']))

/-- A text between two copies of a quote. -/
def quoted (q : Char) : Form := thenOf (char q) (thenOf (.many (quotedStep q)) (char q))

/-- The characters of white space. -/
def blanks : List Char := [' ', '\t', '\r', '\n', '\x0c']

/-- White space. -/
def whitespace : Form := some (.one blanks.contains)

/-- A comment: a text without three backticks in a row, between two rows of three backticks. -/
def comment : Form :=
  let other := except ['\x60']
  let tick := char '\x60'
  let row := thenOf tick (thenOf tick tick)
  thenOf row (thenOf
    (.many (orOf other (orOf (thenOf tick other) (thenOf tick (thenOf tick other))))) row)

/-- The units of time. -/
def timeUnits : List String :=
  ["s", "sec", "secs", "second", "seconds", "m", "min", "mins", "minute", "minutes",
    "h", "hr", "hrs", "hour", "hours", "d", "day", "days", "w", "week", "weeks",
    "mon", "month", "months", "q", "qtr", "qtrs", "quarter", "quarters",
    "y", "yr", "yrs", "year", "years"]

/-- A unit of time, or `w` with a day of the week. -/
def timeUnit : Form :=
  orOf (oneOf timeUnits) (thenOf (char 'w') (.one fun c => '0' ≤ c && c ≤ '7'))

/-- A number of units with a sign in front. -/
def signedAmount : Form :=
  thenOf (orOf (char '+') (char '-')) (thenOf (some digit) timeUnit)

/-- A unit to which a time is rounded down, and an offset from there. -/
def snap : Form := thenOf (char '@') (thenOf timeUnit (optional signedAmount))

/-- A time relative to now: an amount that may be snapped to a unit, or a snap alone. -/
def relativeTime : Form :=
  orOf
    (thenOf (optional (orOf (char '+') (char '-')))
      (thenOf (some digit) (thenOf timeUnit (optional snap))))
    snap

/-- A number without a sign. -/
def number : Form := thenOf (some digit) (optional (thenOf (char '.') (some digit)))

/-- A name: a letter or underscore, then letters, digits, underscores and dots. -/
def name : Form :=
  thenOf (.one fun c => c.isAlpha || c == '_')
    (.many (.one fun c => c.isAlphanum || c == '_' || c == '.'))

/-- A placeholder that a template fills in: letters and underscores in double angle brackets. -/
def placeholder : Form :=
  thenOf (text "<<") (thenOf (some (.one fun c => c.isAlpha || c == '_')) (text ">>"))

/-- The call of a macro: a text between two backticks. -/
def macroCall : Form := thenOf (char '\x60') (thenOf (some (except ['\x60'])) (char '\x60'))

/-- Operators and delimiters. -/
def symbols : List Rule := [
  ⟨text "!=", .notEquals⟩, ⟨text "==", .doubleEquals⟩, ⟨text "<=", .lessEquals⟩,
  ⟨text ">=", .greaterEquals⟩, ⟨text "=", .equals⟩, ⟨text "<", .lessThan⟩,
  ⟨text ">", .greaterThan⟩, ⟨text "+", .plus⟩, ⟨text "-", .minus⟩, ⟨text "*", .multiply⟩,
  ⟨text "/", .divide⟩, ⟨text "%", .modulo⟩, ⟨text ".", .dot⟩, ⟨text "|", .pipe⟩,
  ⟨text ",", .comma⟩, ⟨text "(", .lparen⟩, ⟨text ")", .rparen⟩, ⟨text "[", .lbracket⟩,
  ⟨text "]", .rbracket⟩]

/-- Reserved words, and the words that are values. -/
def words : List Rule :=
  CommandWord.all.flatMap (fun w => w.spellings.map fun s => ⟨word s, .command w⟩) ++
  ClauseWord.all.map (fun w => ⟨word w.spelling, .clause w⟩) ++
  [⟨word "now", .timeModifier⟩, ⟨word "true", .booleanLiteral⟩, ⟨word "false", .booleanLiteral⟩]

/-- Everything that has more than one spelling. -/
def patterns : List Rule := [
  ⟨whitespace, .whitespace⟩, ⟨comment, .comment⟩,
  ⟨quoted '"', .stringLiteral⟩, ⟨quoted '\'', .stringLiteral⟩,
  ⟨relativeTime, .timeModifier⟩, ⟨number, .numberLiteral⟩,
  ⟨macroCall, .macroCall⟩, ⟨name, .identifier⟩, ⟨placeholder, .identifier⟩]

/-- The rules, the earlier ones counting first. -/
def all : List Rule := symbols ++ words ++ patterns

end Rule

end SplQuery
