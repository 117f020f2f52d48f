import SplQuery.Report.Source
import SplQuery.Text.Characters

/-!
# Marks on the lines of a text

A mark points at a stretch of text and may say something about it. On one line it is drawn under
the stretch. A mark over several lines becomes a bar to the left of the text, from the line where
the stretch opens to the line where it closes; bars that would meet run in lanes of their own. Of
the lines in between only those near the beginning, and the one before the last, are shown.
-/

namespace SplQuery.Report

/-- A stretch of text that is pointed at, and what is said about it. -/
structure Mark where
  span : Span
  label : List Char
  /-- whether it is what the report is about -/
  primary : Bool

/-- What a mark is on one of its lines. -/
inductive Role where
  /-- all of the mark is on the line -/
  | whole
  /-- the bar in the lane begins on the line -/
  | opens (lane : Nat)
  /-- the bar in the lane runs past the line -/
  | runs (lane : Nat)
  /-- the bar in the lane ends on the line -/
  | closes (lane : Nat)
  deriving DecidableEq, Repr

/-- A mark as it shows on one line. -/
structure LineMark where
  role : Role
  /-- the columns before what is marked -/
  start : Nat
  /-- the column after what is marked -/
  stop : Nat
  /-- the characters before what is marked -/
  chars : Nat
  label : List Char
  primary : Bool
  deriving Repr

namespace LineMark

/-- Whether something is said beside the mark on this line. -/
def hasLabel (m : LineMark) : Bool := !m.label.isEmpty

/-- Whether a bar begins or ends here, so that a line has to be drawn to its lane. -/
def turns (m : LineMark) : Bool := m.role matches .opens _ | .closes _

/-- Whether two marks share a column, once the first has been made wider at its end. -/
def meets (a b : LineMark) (more : Nat) : Bool :=
  (b.start ≤ a.start && a.start < b.stop) || (a.start ≤ b.start && b.start < a.stop + more)

/-- Whether two marks lie under the same columns. -/
def sameColumns (a b : LineMark) : Bool := a.start == b.start && a.stop == b.stop

end LineMark

/-- A mark over several lines. -/
structure LongMark where
  first : Point
  last : Point
  label : List Char
  primary : Bool
  /-- the lane of its bar, counted from the text to the left -/
  lane : Nat
  /-- whether a later mark has the same ends, so that this one needs no bar of its own -/
  covered : Bool

namespace LongMark

/-- Whether two marks have the same ends. -/
def sameEnds (a b : LongMark) : Bool := a.first == b.first && a.last == b.last

/-- Whether two marks have a line in common. -/
def meets (a b : LongMark) : Bool :=
  (b.first.line ≤ a.first.line && a.first.line ≤ b.last.line) ||
  (a.first.line ≤ b.first.line && b.first.line ≤ a.last.line)

/-- Makes room for the mark of a given number among all marks: marks that meet it move out by one
lane, up to the first that does not. That one becomes what the report is about if it has the ends
of a mark that is. -/
def makeRoom (m : LongMark) (number : Nat) (primaries : List LongMark) :
    Nat → List LongMark → List LongMark
  | _, [] => []
  | k, a :: as =>
    if !m.sameEnds a && m.meets a then
      { a with lane := a.lane + 1 } :: makeRoom m number primaries (k + 1) as
    else if m.sameEnds a && number ≠ k then
      { a with covered := true } :: makeRoom m number primaries (k + 1) as
    else (if primaries.any (·.sameEnds a) then { a with primary := true } else a) :: as

/-- Makes room for each of the given marks, the first of which has the given number. -/
def makeRooms : Nat → List LongMark → List LongMark → List LongMark → List LongMark
  | _, _, [], all => all
  | number, primaries, m :: ms, all =>
    let primaries := if m.primary then m :: primaries else primaries
    makeRooms (number + 1) primaries ms (m.makeRoom number primaries 0 all)

/-- The number of lanes that marks need. -/
def lanes (marks : List LongMark) : Nat := (marks.map (·.lane)).foldl max 0

/-- Gives each mark its lane: the ones that begin first and reach further lie further out. -/
def arrange (marks : List LongMark) : List LongMark :=
  let sorted := marks.mergeSort fun a b =>
    a.first.line < b.first.line || (a.first.line == b.first.line && b.last.line ≤ a.last.line)
  let all := makeRooms 0 [] sorted sorted
  all.map fun m => { m with lane := lanes all - m.lane + 1 }

/-- Whether a line speaks: it is neither blank nor a lone bracket nor a remark. -/
def speaks (text : List Char) : Bool :=
  let t := Text.trimChars text
  let starts (s : String) : Bool := s.toList.isPrefixOf t
  !(starts "//" && !(starts "///" || starts "//!")) &&
  !(["", "\x7b", "\x7d", "(", ")", "[", "]"].contains (String.ofList t))

/-- The last line to be shown near the beginning of a mark: of the first four lines the last one
that speaks. -/
def shownUntil (m : LongMark) (lines : List SourceLine) : Nat :=
  let middle := min (m.first.line + 4) m.last.line
  (((List.range' m.first.line (middle - m.first.line)).filter fun number =>
    (SourceLine.text? lines number).any speaks).getLast?).elim m.first.line (· + 1)

/-- Whether the bar of a mark runs past a line that is shown. -/
def runsPast (m : LongMark) (lines : List SourceLine) (number : Nat) : Bool :=
  (m.first.line < number && number < m.shownUntil lines) ||
  (number + 1 == m.last.line && m.first.line + 4 < number &&
    (SourceLine.text? lines number).all speaks)

/-- What a mark is on a line. -/
def on (m : LongMark) (lines : List SourceLine) (number : Nat) : List LineMark :=
  if number = m.last.line then
    [⟨if m.covered then .whole else .closes m.lane, m.last.column - 1, m.last.column,
      m.last.chars - 1, m.label, m.primary⟩]
  else if m.covered then []
  else if number = m.first.line then
    [⟨.opens m.lane, m.first.column, m.first.column + 1, m.first.chars, [], m.primary⟩]
  else if m.runsPast lines number then [⟨.runs m.lane, 0, 0, 0, [], m.primary⟩]
  else []

end LongMark

/-- A line together with the marks on it. -/
structure MarkedLine where
  line : SourceLine
  marks : List LineMark

/-- The marked lines of a text, and how many lanes lie to the left of them. -/
structure Excerpt where
  lines : List SourceLine
  marked : List MarkedLine
  lanes : Nat

namespace Excerpt

/-- Marks on a single line, with the number of the line. -/
def wholes (lines : List SourceLine) (marks : List Mark) : List (Nat × LineMark) :=
  marks.filterMap fun m =>
    let first := Point.first lines m.span.start
    let last := if m.span.isEmpty then first else Point.last lines first.line m.span.stop
    if first.line = last.line then
      let stop := if first.column = last.column then last.column + 1 else last.column
      some (first.line, ⟨.whole, first.column, stop, first.chars, m.label, m.primary⟩)
    else none

/-- Marks over several lines. -/
def longs (lines : List SourceLine) (marks : List Mark) : List LongMark :=
  marks.filterMap fun m =>
    let first := Point.first lines m.span.start
    let last := if m.span.isEmpty then first else Point.last lines first.line m.span.stop
    if first.line = last.line then none else some ⟨first, last, m.label, m.primary, 1, false⟩

/-- The lines of a text with marks on them. -/
def ofMarks (text : List Char) (marks : List Mark) : Excerpt :=
  let lines := SourceLine.ofText text
  let short := wholes lines marks
  let long := LongMark.arrange (longs lines marks)
  let marked := lines.filterMap fun line =>
    let here := (short.filter (·.1 = line.number)).map (·.2) ++
      long.flatMap (·.on lines line.number)
    if here.isEmpty then none else some ⟨line, here⟩
  ⟨lines, marked, LongMark.lanes long⟩

end Excerpt

end SplQuery.Report
