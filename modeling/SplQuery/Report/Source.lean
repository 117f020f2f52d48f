import SplQuery.Text.Columns
import SplQuery.Text.Location

/-!
# Lines of a text

A text is cut into lines behind each line feed; a carriage return before the line feed belongs to
the break. A `Point` is a place of the text as it is seen: its line, the characters before it in
the line, and the columns that they take.
-/

namespace SplQuery.Report

/-- One line of a text. -/
structure SourceLine where
  /-- its number, from one on -/
  number : Nat
  /-- its characters without the break -/
  text : List Char
  /-- the place where it begins -/
  start : Nat
  /-- the place behind its break -/
  stop : Nat
  deriving Repr

namespace SourceLine

/-- The place behind its last character. -/
def textStop (l : SourceLine) : Nat := l.start + Text.width l.text

/-- Whether a place lies in the line or in its break. -/
def holds (l : SourceLine) (place : Nat) : Bool := l.start ≤ place && place < l.stop

/-- Takes a carriage return off the end of a line that a line feed ends. -/
def withoutReturn (cs : List Char) : List Char :=
  if cs.getLast? = some '\r' then cs.dropLast else cs

/-- The lines of what is left of a text, from a line and a place on. -/
def collect (number start : Nat) (cs : List Char) : List SourceLine :=
  let begun := cs.takeWhile (· ≠ '\n')
  match h : cs.dropWhile (· ≠ '\n') with
  | [] => if begun.isEmpty then [] else [⟨number, begun, start, start + Text.width begun⟩]
  | _ :: rest =>
    let stop := start + Text.width begun + 1
    ⟨number, withoutReturn begun, start, stop⟩ :: collect (number + 1) stop rest
termination_by cs.length
decreasing_by
  have := (List.dropWhile_suffix (l := cs) (· ≠ '\n')).length_le
  simp only [h, List.length_cons] at this
  omega

/-- The lines of a text. Even a text without characters has a line. -/
def ofText (text : List Char) : List SourceLine :=
  match collect 1 0 text with
  | [] => [⟨1, [], 0, 0⟩]
  | ls => ls

/-- The text of the line with a number. -/
def text? (lines : List SourceLine) (number : Nat) : Option (List Char) :=
  (lines.find? (·.number = number)).map (·.text)

end SourceLine

/-- A place of a text as it is seen. -/
structure Point where
  /-- the number of its line -/
  line : Nat
  /-- the characters before it in the line -/
  chars : Nat
  /-- the columns before it in the line -/
  column : Nat
  deriving DecidableEq, Repr

namespace Point

/-- The line that holds a place: the last one if none does. -/
def lineAt (lines : List SourceLine) (place : Nat) : SourceLine :=
  ((lines.find? (·.holds place)).or lines.getLast?).getD ⟨1, [], 0, 0⟩

/-- The point at a place of a line; places in the break are taken for the end of the line. -/
def within (l : SourceLine) (place : Nat) : Point :=
  let before := Text.before (place - l.start) l.text
  ⟨l.number, before.length, Text.columns before⟩

/-- The point where a stretch of text begins. -/
def first (lines : List SourceLine) (place : Nat) : Point :=
  let l := lineAt lines place
  let p := within l place
  if l.textStop < place then { p with chars := p.chars + 1 } else p

/-- The point where a stretch of text that begins on a line ends. A stretch that ends in the break
of a later line reaches over the end of that line. -/
def last (lines : List SourceLine) (begun place : Nat) : Point :=
  let l := lineAt lines place
  let p := within l place
  if l.number ≠ begun ∧ l.textStop < place then ⟨p.line, p.chars + 1, p.column + 1⟩ else p

end Point

end SplQuery.Report
