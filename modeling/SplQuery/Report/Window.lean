import SplQuery.Report.Mark

/-!
# Which columns are shown

Reports are at most 140 columns wide. When the marked lines are longer than that, only a window of
their columns is shown: blank columns at the beginning go first, then what lies furthest from the
marks and from what is said beside them.
-/

namespace SplQuery.Report

/-- The number of columns of a report. -/
def reportColumns : Nat := 140

/-- The columns that are shown of each line. -/
structure Window where
  /-- the first column that is shown -/
  first : Nat
  /-- the column behind the last one that is shown -/
  last : Nat
  /-- how many columns there is room for -/
  room : Nat
  deriving Repr

namespace Window

/-- What has to be known of the marked lines. -/
structure Extents where
  /-- the blank columns that all lines begin with -/
  indent : Nat
  /-- the first column of a mark -/
  first : Nat
  /-- the column behind the last one of a mark -/
  last : Nat
  /-- the column behind what is said beside a mark -/
  labels : Nat
  /-- the columns of the longest line -/
  longest : Nat
  deriving Repr

namespace Extents

/-- The blank columns that a line begins with, if there is more on the line. -/
def indent? (text : List Char) : Option Nat :=
  if text.all Text.isBlank then none
  else some ((text.takeWhile Text.isBlank).foldl (fun n c => if c = '\t' then n + 4 else n + 1) 0)

/-- Measures marked lines. -/
def ofLines (lines : List MarkedLine) : Extents :=
  let marks := lines.flatMap (·.marks)
  let most (ns : List Nat) := ns.foldl max 0
  {
    indent := ((lines.filterMap (indent? ·.line.text)).min?).getD 0
    first := ((marks.flatMap fun m => [m.start, m.stop]).min?).getD 0
    last := most (marks.flatMap fun m => [m.start, m.stop])
    labels := most (marks.map fun m =>
      m.stop + if m.hasLabel then Text.columns m.label + 1 else 0)
    longest := most (lines.map (Text.columns ·.line.text)) }

end Extents

/-- Columns left free at both sides of what has to be seen. -/
def padding : Nat := 6

/-- Whether the columns from one up to another fit into a number of columns. -/
def fits (room first last : Nat) : Bool := first ≤ last && last - first ≤ room

/-- The window for lines that have been measured. -/
def ofExtents (e : Extents) (room : Nat) : Window :=
  let indent := e.indent - padding
  let first := e.first - padding
  let last := e.last + padding
  let labels := e.labels + padding
  let start := if indent > 20 then indent - 16 else 0
  let stop := max e.longest start
  if stop - start ≤ room then ⟨start, stop, room⟩
  else if fits room indent labels then ⟨indent, indent + room, room⟩
  else if fits room first labels then
    let start := first - (room - (labels - first)) / 2
    ⟨start, start + room, room⟩
  else if fits room first last then
    let start := first - (room - (last - first)) / 5 * 2
    ⟨start, start + room, room⟩
  else ⟨first, last, room⟩

/-- Whether columns at the beginning of the lines are left out. -/
def cutsLeft (w : Window) : Bool := w.first > 0

/-- The column behind the last one that is shown of a line of some columns. -/
def lastOf (w : Window) (columns : Nat) : Nat :=
  if columns - w.first ≤ w.room then columns else min columns w.last

end Window

end SplQuery.Report
