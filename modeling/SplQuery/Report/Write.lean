import SplQuery.Diagnostic.Basic
import SplQuery.Report.Draw

/-!
# Reports

A report shows a diagnostic to a reader: a title with its message, the place where it is found, the
lines of the text that are meant, with marks under the stretch itself and under what bears on it,
and the hints.
-/

namespace SplQuery

namespace Report

/-- How reports are written. -/
structure Manner where
  /-- whether to use colours -/
  colors : Bool
  /-- what the text is called -/
  path : Option String

/-- A stretch as it is marked: one without content is marked at the character behind it, or at the
last one at the end of the text. -/
def markedSpan (size : Nat) (s : Span) : Span :=
  if s.start = s.stop then
    if size ≤ s.start ∧ 0 < size then ⟨size - 1, size⟩ else ⟨s.start, min (s.start + 1) size⟩
  else s

/-- The marks of a diagnostic in a text of some bytes. -/
def marksOf (size : Nat) (d : Diagnostic) : List Mark :=
  ⟨markedSpan size d.span, Text.visible d.message.toList, true⟩ ::
  d.related.map fun r => ⟨markedSpan size r.span, Text.visible r.message.toList, false⟩

/-- A word and a colon, and a text whose further lines begin below the first one. -/
def heading (word : String) (wordStyle textStyle : Style) (text : List Char) : List Row :=
  match (String.ofList text).splitOn "\n" with
  | [] => []
  | line :: lines =>
    (Row.ofText wordStyle word.toList ++ Row.ofText textStyle (": " ++ line).toList) ::
    lines.map fun l => Row.blank (word.length + 2) ++ Row.ofText textStyle l.toList

/-- The number of the last line that a mark reaches. -/
def lastNumber (text : List Char) (marks : List Mark) : Nat :=
  let stop := (marks.map (·.span.stop)).foldl max 0
  1 + (Text.before stop text).count '\n'

/-- Where the first mark stands that the report is about. -/
def whereabouts (e : Excerpt) (path : String) : String :=
  let found := e.marked.findSome? fun l => (l.marks.find? (·.primary)).map fun m => (l.line, m)
  match found with
  | some (line, m) => path ++ ":" ++ toString line.number ++ ":" ++ toString (m.chars + 1)
  | none => path

/-- The rows of a report on a diagnostic of a text. -/
def rows (text : List Char) (path : Option String) (d : Diagnostic) : List Row :=
  let marks := marksOf (Text.width text) d
  let digits := (toString (lastNumber text marks)).length
  let e := Excerpt.ofMarks text marks
  let spacer := Row.blank (digits + 1) ++ Row.ofText .note ['|']
  heading "error" .error .strong (Text.visible d.message.toList) ++
  (path.toList.map fun p => Row.blank digits ++ Row.ofText .note "--> ".toList ++
    Row.ofText .plain (whereabouts e p).toList) ++
  [spacer] ++ e.draw digits ++
  (if d.hints.isEmpty then [] else [spacer]) ++
  d.hints.flatMap fun h => heading "help" .help .plain h.toList

/-- A report on a diagnostic of a text. -/
def write (text : List Char) (m : Manner) (d : Diagnostic) : String :=
  "\n".intercalate ((rows text m.path d).map (·.write m.colors))

/-- Reports on those of the diagnostics of a text that are worth showing. -/
def writeAll (text : List Char) (m : Manner) (ds : List Diagnostic) : String :=
  "\n".intercalate ((Diagnostic.filtered ds).map (write text m))

end Report

end SplQuery
