import SplQuery.Text.Span

/-!
# Lines and columns

Lines and columns count from one, columns in characters, and only a line feed ends a line. A
`LineIndex` keeps the places at which the lines of a text start. The line of a place is the last one
that starts at or before it, which is found by halving, and the column counts the characters from
the start of that line on. A `Location` gives a span together with the positions of its first and
its last character.
-/

namespace SplQuery

/-- A line and a column, both counted from one. -/
structure Position where
  line : Nat
  column : Nat
  deriving DecidableEq, Repr, Inhabited

/-- A span with the position of its first character and that of its last. When the span is empty
both are the position of the place where it stands. -/
structure Location where
  first : Position
  last : Position
  span : Span
  deriving DecidableEq, Repr, Inhabited

/-! ## Halving -/

/-- Halves the stretch of indices from `base` on until a single one is left. What lies before the
middle is dropped where the middle is a member, else what lies at the far end. -/
def bisect (member : Nat → Bool) (base size : Nat) : Nat :=
  if size ≤ 1 then base
  else
    let middle := base + size / 2
    bisect member (if member middle then middle else base) (size - size / 2)
termination_by size

/-- How many elements come before the first one that is no member, in an array in which no member
comes behind it. -/
def partitionPoint {α : Type} (member : α → Bool) (xs : Array α) : Nat :=
  let memberAt (i : Nat) : Bool := xs[i]?.any member
  if xs.size = 0 then 0
  else
    let last := bisect memberAt 0 xs.size
    if memberAt last then last + 1 else last

/-! ## Lines -/

namespace Text

/-- The characters of a text, each with the place at which it begins, where the first one begins at
a given place. -/
def indexed : Nat → List Char → List (Nat × Char)
  | _, [] => []
  | place, c :: cs => (place, c) :: indexed (place + c.utf8Size) cs

/-- The places behind the line feeds of a text that begins at a given place. -/
def lineStarts (place : Nat) (text : List Char) : List Nat :=
  ((indexed place text).filter (·.2 == '\n')).map (·.1 + 1)

end Text

/-- A text and the places at which its lines start, in order. -/
structure LineIndex where
  text : List Char
  starts : Array Nat

namespace LineIndex

/-- The first line starts where the text does, every other one behind a line feed. -/
def ofText (text : List Char) : LineIndex := ⟨text, (0 :: Text.lineStarts 0 text).toArray⟩

/-- The position at a place; a place past the end of the text is taken for the end. -/
def position (index : LineIndex) (place : Nat) : Position :=
  let place := min place (Text.width index.text)
  let line := partitionPoint (· ≤ place) index.starts - 1
  let start := index.starts[line]?.getD 0
  ⟨line + 1, (Text.slice ⟨start, place⟩ index.text).length + 1⟩

/-- Where a span stands, the ends of which lie between characters of the text. -/
def location (index : LineIndex) (s : Span) : Location :=
  let first := index.position s.start
  let last? := (Text.indexed s.start (Text.slice s index.text)).getLast?
  ⟨first, last?.elim first (index.position ·.1), s⟩

@[simp] theorem span_location (index : LineIndex) (s : Span) : (index.location s).span = s := rfl

end LineIndex

/-- The position at a place of a text. -/
def Position.ofPlace (text : List Char) (place : Nat) : Position :=
  (LineIndex.ofText text).position place

namespace Location

/-- Where a span stands in a text. -/
def ofSpan (text : List Char) (s : Span) : Location := (LineIndex.ofText text).location s

/-- Whether `inner` lies within `outer`, by bytes. -/
def contains (outer inner : Location) : Bool := outer.span.contains inner.span

end Location

end SplQuery
