import SplQuery.Report.Canvas
import SplQuery.Report.Window

/-!
# Drawing marked lines

Each marked line is drawn as a block of rows: the text of the line behind its number, under it the
row in which the marks are underlined, and under that the rows in which longer marks turn to their
lanes and in which the labels stand that found no room beside their marks. Blocks are joined by
the bars of the marks that run on.
-/

namespace SplQuery.Report

/-- What all rows of an excerpt have in common. -/
structure Frame where
  /-- the digits of the line numbers -/
  digits : Nat
  lanes : Nat
  window : Window

namespace Frame

/-- The column of the bar between the line numbers and the text. -/
def bar (f : Frame) : Nat := f.digits + 1

/-- The column of a lane. -/
def lane (f : Frame) (lane : Nat) : Nat := f.digits + 2 + lane

/-- The column where the texts of the lines begin. -/
def code (f : Frame) : Nat := if f.lanes = 0 then f.digits + 3 else f.digits + 4 + f.lanes

/-- The column where the texts begin when there is a number of lanes. -/
def codeFor (digits lanes : Nat) : Nat := code ⟨digits, lanes, ⟨0, 0, 0⟩⟩

end Frame

/-- What stands where a part of a line is left out. -/
def ellipsis : List Char := ['.', '.', '.']

/-- The bar beside the rows of a block. -/
def bars (f : Frame) (first last : Nat) : List Stroke := Stroke.down first last f.bar '|' .note

/-- As many characters from the beginning of a text as cover the ellipsis. -/
def underEllipsis : Nat → List Char → List Char
  | _, [] => []
  | taken, c :: cs =>
    c :: if ellipsis.length ≤ taken + Text.columnsOf c then []
      else underEllipsis (taken + Text.columnsOf c) cs

/-- A number at the right end of the columns for line numbers. -/
def lineNumber (digits number : Nat) : List Char :=
  let text := (toString number).toList
  List.replicate (digits - text.length) ' ' ++ text

/-- A line of text with its number, and the number of columns that are left out before it. -/
def drawText (f : Frame) (line : SourceLine) : List Stroke × Nat :=
  let text := Text.visible line.text
  let size := Text.columns text
  let left := min f.window.first size
  let right := f.window.lastOf size
  let rest := Text.dropColumns left text
  let skipped := max left (size - Text.columns rest)
  let shown := Text.takeColumns (right - left) rest
  let hidden := if f.window.cutsLeft then underEllipsis 0 shown else []
  let wide := Text.columns hidden
  let begun := if f.window.cutsLeft then skipped - (wide - ellipsis.length) else skipped
  let kept := shown.drop hidden.length
  let start := f.code + wide
  let cut := if f.window.cutsLeft then [⟨0, f.code, ellipsis, .note⟩] else []
  let ending := if right < size then
      [⟨0, start + kept.length - (underEllipsis 0 shown.reverse).length, ellipsis, .note⟩]
    else []
  (cut ++ [⟨0, start, kept, .plain⟩] ++ ending ++
    [⟨0, 0, lineNumber f.digits line.number, .note⟩] ++ bars f 0 1, begun)

/-! ## Where the labels go -/

/-- A mark and how many rows below the underlines its label or its turn stands. -/
structure Hung where
  depth : Nat
  mark : LineMark

/-- Whether a mark has to make room for one that lies to the left of it or under it. -/
def yields (m other : LineMark) : Bool :=
  other.meets m 0 && !(other.sameColumns m && !other.hasLabel)

/-- Whether the mark to the left of a mark has to stand lower. -/
def crowds (depth : Nat) (m other : LineMark) : Bool :=
  let reach := if other.label.isEmpty then 0 else Text.width other.label + 2
  (other.meets m reach && m.hasLabel && other.hasLabel) ||
  (m.turns && other.hasLabel) || (m.hasLabel && other.turns) || (m.turns && other.turns) ||
  (other.meets m reach && other.stop ≤ m.stop && other.hasLabel && depth == 0)

/-- Hangs marks that are given from the right to the left, from a depth on, and gives the depth
that is reached. -/
def hang : Nat → List LineMark → List Hung × Nat
  | depth, [] => ([], depth)
  | depth, m :: ms =>
    let here := if depth = 0 ∧ m.hasLabel ∧ ms.any (yields m) then 1 else depth
    let next := if ms.any (crowds here m) then here + 1 else here
    let (hung, reached) := hang next ms
    (⟨here, m⟩ :: hung, reached)

/-- How the marks of a line hang, and the number of rows that hang below the underlines. When all
of them open they turn in reverse, so that their bars do not cross. -/
def hangAll (marks : List LineMark) : List Hung × Nat :=
  let (hung, reached) := hang 0 marks
  let rows := if reached = 0 then 0 else reached + 1
  if hung.all (·.mark.role matches .opens _) then
    let deepest := (hung.map (·.depth)).foldl max 0
    (hung.map fun h => { h with depth := deepest - h.depth }, rows - 1)
  else (hung, rows)

/-! ## Drawing one line -/

/-- The style of a mark. -/
def markStyle (m : LineMark) : Style := if m.primary then .error else .note

/-- What a mark is underlined with. -/
def markChar (m : LineMark) : Char := if m.primary then '^' else '-'

/-- The column where a mark begins. -/
def markColumn (f : Frame) (left : Nat) (m : LineMark) : Nat := f.code + m.start - left

/-- The horizontal line from a lane to a mark that turns there. -/
def drawTurn (f : Frame) (left : Nat) (h : Hung) : List Stroke :=
  let line (lane : Nat) := [Stroke.across (h.depth + 1) (f.lane lane + 1)
    (markColumn f left h.mark) '_' (markStyle h.mark)]
  match h.mark.role with
  | .opens lane => line lane
  | .closes lane => line lane
  | _ => []

/-- The vertical line from a mark to its label or its turn, and the beginning or the end of its
bar. -/
def drawFall (f : Frame) (left rows : Nat) (h : Hung) : List Stroke :=
  let style := markStyle h.mark
  let row := h.depth + 1
  let fall := if h.depth > 0 && (h.mark.hasLabel || h.mark.turns) then
      Stroke.down 1 (row + 1) (markColumn f left h.mark) '|' style
    else []
  let bar := match h.mark.role with
    | .opens lane =>
      .dot row (f.lane lane) ' ' style :: Stroke.down (row + 1) (rows + 2) (f.lane lane) '|' style
    | .closes lane => Stroke.down 0 (row + 1) (f.lane lane) '|' style
    | _ => []
  fall ++ bar

/-- The label of a mark: beside the underline, or at the end of its vertical line. -/
def drawLabel (f : Frame) (left : Nat) (h : Hung) : Stroke :=
  let m := h.mark
  if h.depth = 0 then
    ⟨1, f.code + ((if m.stop = 0 then 2 else m.stop + 1) - left), m.label, markStyle m⟩
  else ⟨h.depth + 2, f.code + (m.start - left), m.label, markStyle m⟩

/-- The underline of a mark. -/
def drawUnderline (f : Frame) (left : Nat) (m : LineMark) : List Stroke :=
  if m.role matches .runs _ then []
  else (List.range' m.start (max 1 (m.stop - m.start))).map fun column =>
    .dot 1 (f.code + column - left) (markChar m) (markStyle m)

/-- Marks in the order in which they are underlined: longer ones first, then those that the report
is not about. -/
def underlineOrder (hung : List Hung) : List Hung :=
  let length (h : Hung) := h.mark.stop - h.mark.start
  hung.mergeSort fun a b =>
    length b < length a || (length a == length b && (!a.mark.primary || b.mark.primary))

/-- Takes the middle out of a row. -/
def elide (row : Row) (first last : Nat) : Row :=
  if first = last || row.length < first || row.length < last then row
  else row.take first ++ .ofText .note ellipsis ++ row.drop last

/-- Takes the middle out of marks that are more than twice as long as there is room for, if they
are the only ones on the line or meet none but the first two. -/
def elideLong (f : Frame) (byColumn hung : List Hung) (rows : List Row) : List Row :=
  let later := byColumn.drop 2
  (hung.zipIdx).foldl (fun rows (h, k) =>
    let met := 2 ≤ k || (byColumn[k]?).any fun b => later.any fun a => a.mark.meets b.mark 0
    let length := h.mark.stop - h.mark.start
    if !met && h.mark.role == .whole && f.window.room * 2 < length && 10 < length then
      let keep := max (f.window.room / 3) 5
      rows.mapIdx fun k row =>
        if k < 2 then elide row (h.mark.start + keep) (h.mark.stop - keep) else row
    else rows) rows

/-- Whether a line shows nothing but the bars of marks that begin before its text or run past. -/
def onlyBars (line : MarkedLine) : Bool :=
  line.marks.all fun m => match m.role with
    | .opens _ => ((Text.visible line.line.text).take m.start).all Text.isBlank
    | .runs _ => true
    | _ => false

/-- The rows of a marked line. -/
def drawLine (f : Frame) (line : MarkedLine) : List Row :=
  let (text, left) := drawText f line.line
  if onlyBars line then
    paint (text ++ line.marks.filterMap fun m => match m.role with
      | .opens lane => some (.dot 0 (f.lane lane) '/' (markStyle m))
      | _ => none)
  else
    let (hung, rows) := hangAll (line.marks.mergeSort fun a b => b.start ≤ a.start)
    let drawn := underlineOrder hung
    elideLong f hung drawn (paint (
      text ++ bars f 1 (rows + 2) ++ hung.flatMap (drawTurn f left) ++
      hung.flatMap (drawFall f left rows) ++ hung.map (drawLabel f left) ++
      drawn.flatMap (drawUnderline f left ·.mark)))

/-! ## Joining the lines -/

/-- A bar that runs on: its lane and its style. -/
abbrev Bar := Nat × Style

/-- Draws bars that run on beside a row. -/
def drawBars (f : Frame) (running : List Bar) (row : Row) : Row :=
  running.foldl (fun row b => row.cover (f.lane b.1) [⟨'|', b.2⟩]) row

/-- The bars that begin on a line. -/
def opened (line : MarkedLine) : List Bar :=
  line.marks.filterMap fun m => match m.role with
    | .opens lane => some (lane, markStyle m)
    | _ => none

/-- The lanes whose bars end on a line. -/
def closed (line : MarkedLine) : List Nat :=
  line.marks.filterMap fun m => match m.role with
    | .closes lane => some lane
    | _ => none

/-- The row between two marked lines that are not neighbours: the line between them if there is
but one, and an ellipsis for more. -/
def drawGap (f : Frame) (lines : List SourceLine) (line next : MarkedLine) : List Row :=
  if line.line.number + 2 < next.line.number then [.ofText .note ellipsis]
  else if line.line.number + 2 = next.line.number then
    let text := (SourceLine.text? lines (line.line.number + 1)).getD []
    paint (drawText f { line.line with number := line.line.number + 1, text := text }).1
  else []

/-- The rows of marked lines past which some bars run. -/
def drawLines (f : Frame) (lines : List SourceLine) : List Bar → List MarkedLine → List Row
  | _, [] => []
  | running, line :: rest =>
    let running := running.filter fun b => !(closed line).contains b.1
    let block := (drawLine f line).map (drawBars f running)
    let after := running ++ opened line
    let gap := match rest with
      | [] => []
      | next :: _ => (drawGap f lines line next).map (drawBars f after)
    block ++ gap ++ drawLines f lines after rest

/-- The rows of an excerpt behind line numbers of some digits. -/
def Excerpt.draw (e : Excerpt) (digits : Nat) : List Row :=
  let room := reportColumns - Frame.codeFor digits e.lanes
  let window := Window.ofExtents (Window.Extents.ofLines e.marked) room
  drawLines ⟨digits, e.lanes, window⟩ e.lines [] e.marked

end SplQuery.Report
