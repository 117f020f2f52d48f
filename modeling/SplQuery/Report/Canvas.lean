/-!
# Rows of styled cells

A report is drawn into rows of cells, each a character with the style in which it is shown. What is
drawn later covers what was drawn before it at the same place; what is left out in between is
blank. When rows are written out with colours, each run of cells of one style that is not plain
stands between the code that turns the style on and the one that turns it off.
-/

namespace SplQuery.Report

/-- How a cell is shown. -/
inductive Style where
  | plain
  /-- the message of the title -/
  | strong
  /-- the word for the weight of the report, and what the report is about -/
  | error
  /-- what stands around the text, and what bears on the report -/
  | note
  /-- the word before a hint -/
  | help
  deriving DecidableEq, Repr

namespace Style

/-- The code that turns a style on. -/
def on : Style → String
  | .plain => ""
  | .strong => "\x1b[1m"
  | .error => "\x1b[1m\x1b[91m"
  | .note => "\x1b[1m\x1b[94m"
  | .help => "\x1b[1m\x1b[96m"

/-- The code that turns a style off. -/
def off : Style → String
  | .plain => ""
  | _ => "\x1b[0m"

end Style

/-- A character and how it is shown. -/
structure Cell where
  char : Char
  style : Style
  deriving DecidableEq, Repr

/-- A row of cells. -/
abbrev Row := List Cell

namespace Row

/-- A text in one style. -/
def ofText (style : Style) (text : List Char) : Row := text.map (⟨·, style⟩)

/-- A row with nothing on it. -/
def blank (count : Nat) : Row := .ofText .plain (List.replicate count ' ')

/-- Puts cells over a row from a column on. -/
def cover (row : Row) (column : Nat) (cells : List Cell) : Row :=
  row.take column ++ blank (column - row.length) ++ cells ++ row.drop (column + cells.length)

/-- The cells of a row after a cell of a style, with the codes for the changes of style. -/
def colored (style : Style) : Row → String
  | [] => style.off
  | c :: cs =>
    if c.style = style then c.char.toString ++ colored style cs
    else style.off ++ c.style.on ++ c.char.toString ++ colored c.style cs

/-- The text of a row, with colours or without. -/
def write (row : Row) (colors : Bool) : String :=
  if colors then colored .plain row else String.ofList (row.map (·.char))

theorem length_cover (row : Row) (column : Nat) (cells : List Cell) :
    (row.cover column cells).length = max row.length (column + cells.length) := by
  simp only [cover, blank, ofText, List.length_append, List.length_take, List.length_map,
    List.length_replicate, List.length_drop]
  omega

end Row

/-- A text that is drawn into a row from a column on. -/
structure Stroke where
  row : Nat
  column : Nat
  text : List Char
  style : Style
  deriving Repr

namespace Stroke

/-- One character. -/
def dot (row column : Nat) (char : Char) (style : Style) : Stroke := ⟨row, column, [char], style⟩

/-- One character over and over, from a column up to and without another. -/
def across (row first last : Nat) (char : Char) (style : Style) : Stroke :=
  ⟨row, first, List.replicate (last - first) char, style⟩

/-- One character in each of the rows from one up to and without another. -/
def down (first last column : Nat) (char : Char) (style : Style) : List Stroke :=
  (List.range' first (last - first)).map fun row => dot row column char style

/-- Draws a stroke over rows. -/
def draw (rows : List Row) (s : Stroke) : List Row :=
  if s.text.isEmpty then rows
  else
    (rows ++ List.replicate (s.row + 1 - rows.length) []).modify s.row fun row =>
      Row.cover row s.column (Row.ofText s.style s.text)

end Stroke

/-- Draws strokes, the later ones over the earlier ones. -/
def paint (strokes : List Stroke) : List Row := strokes.foldl Stroke.draw []

end SplQuery.Report
