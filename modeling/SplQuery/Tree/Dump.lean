import SplQuery.Text.Escaped
import SplQuery.Tree.Placed

/-!
# Trees in writing

One line for each node and each lexeme, two spaces deeper than the node above it.
-/

namespace SplQuery

/-- What a written tree shows. -/
structure DumpOptions where
  /-- whether trivia is shown -/
  trivia : Bool
  /-- whether the covered stretches are shown -/
  spans : Bool

namespace Placed

/-- A stretch in brackets, if stretches are shown. -/
def spanText (options : DumpOptions) (s : Span) : String :=
  if options.spans then " [" ++ toString s.start ++ ".." ++ toString s.stop ++ "]" else ""

/-- The start of a line at a level. -/
def indent (level : Nat) : String := "".pushn ' ' (2 * level)

mutual

/-- The lines of a tree at a level. -/
def dumpLines (options : DumpOptions) (level : Nat) : Placed → List String
  | .leaf span kind text =>
    if options.trivia || !kind.isTrivia then
      [indent level ++ kind.name ++ spanText options span ++ " " ++ Text.shown text]
    else []
  | .node span _ shape children =>
    (indent level ++ shape.name ++ spanText options span) ::
      dumpAllLines options (level + 1) children

/-- The lines of trees at a level. -/
def dumpAllLines (options : DumpOptions) (level : Nat) : List Placed → List String
  | [] => []
  | p :: ps => p.dumpLines options level ++ dumpAllLines options level ps

end

/-- A tree in writing, each line ended by a line feed. -/
def dump (options : DumpOptions) (p : Placed) : String :=
  String.join ((p.dumpLines options 0).map (· ++ "\n"))

end Placed

end SplQuery
