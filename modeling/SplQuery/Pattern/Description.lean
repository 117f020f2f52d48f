import SplQuery.Pattern.Lookup

/-!
# Descriptions of matches

What matching the arguments of a command gave, in a few lines for people.
-/

namespace SplQuery

/-- A parameter with what it took, and what happens to the field that it names. -/
def Binding.describe (b : Binding) : String :=
  b.name ++ ": " ++ b.type.words ++ " = " ++ b.text ++
    match b.effect with
    | .none => ""
    | effect => " (" ++ effect.camelName ++ ")"

namespace CommandSyntax

/-- Matches a text against the arguments of a command, whose name may stand before them. -/
def matchText (s : CommandSyntax) (text : String) : MatchResult :=
  let tokens := (tokenize text).tokens
  if tokens.head?.any (s.hasName ·.text) then s.interpretStage tokens
  else s.pattern.interpret tokens

/-- The lines that say what matching gave. -/
def describeLines (s : CommandSyntax) (r : MatchResult) : List String :=
  let verdict := if r.matched then "matched (" ++ toString r.consumed ++ " tokens)"
    else "no match after " ++ toString r.consumed ++ " tokens: " ++
      r.error.getD "unexpected input"
  ["usage: " ++ s.usage, verdict] ++
  (if r.bindings.isEmpty then [] else "bindings:" :: r.bindings.map ("  " ++ ·.describe)) ++
  if r.expected.isEmpty then [] else ["expected: " ++ ", ".intercalate r.expected]

/-- What matching gave, each line ended by a line feed. -/
def describe (s : CommandSyntax) (r : MatchResult) : String :=
  String.join ((s.describeLines r).map (· ++ "\n"))

end CommandSyntax

end SplQuery
